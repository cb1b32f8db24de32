import CBank.RequestParser

/-!
# The Cookie List

The loop of `parse_req_cookies`, with the array it stores the cookies in. It starts with room for
20 of them. At the twentieth it asks `realloc` for as many bytes as it wants slots, and keeps what
it gets in a structure of its own: `req->cookies_list` goes on pointing to the block it had, which
has shrunk or was freed.

## Main results

* `cookieLoop_of_room`: what the loop does before it grows the array.
* `cookies_kept_iff`: when all cookies of a request are kept.
-/

namespace CBank

open CLib

/-! ### The loop -/

/-- `MAX_COOKIES`. -/
abbrev maxCookies : ℕ := 1000

/-- `sizeof(Cookie)`: two pointers. -/
abbrev sizeofCookie : ℕ := 16

/-- What `realloc` does to a block: NULL, the block resized where it is, or another block. -/
inductive Realloc
  | fails
  | stays
  | moves
  deriving DecidableEq

/-- A write to a slot, with the size of the block it was written to; `none` when it was freed. -/
structure SlotWrite where
  index : ℕ
  block : Option ℕ
  deriving DecidableEq

/-- The slot lies inside the block. -/
def SlotWrite.Inside (w : SlotWrite) : Prop :=
  ∃ size ∈ w.block, (w.index + 1) * sizeofCookie ≤ size

/-- The variables of the loop, the size of the block `req->cookies_list.cookies` points to, the
cookies it was given, and where they were written. -/
structure CookieLoop where
  cookiesIdx : ℕ
  cookiesAllocSize : ℕ
  reallocTrigger : ℕ
  block : Option ℕ
  slots : List Cookie
  writes : List SlotWrite

/-- The array is allocated. -/
def CookieLoop.start : CookieLoop := ⟨0, 20, 19, some (20 * sizeofCookie), [], []⟩

/-- A cookie is stored through `req->cookies_list`. -/
def CookieLoop.store (st : CookieLoop) (cookie : Cookie) : CookieLoop :=
  { st with
    cookiesIdx := st.cookiesIdx + 1
    slots := st.slots ++ [cookie]
    writes := st.writes ++ [⟨st.cookiesIdx, st.block⟩] }

/-- The array was to grow by 20 slots, and the list now points to `block`. -/
def CookieLoop.grow (st : CookieLoop) (block : Option ℕ) : CookieLoop :=
  { st with
    cookiesAllocSize := st.cookiesAllocSize + 20
    reallocTrigger := st.cookiesAllocSize + 20 - 1
    block := block }

/-- The loop of `parse_req_cookies` over the tokens of the header; `realloc` is asked for a number
of bytes. -/
def cookieLoop (realloc : ℕ → Realloc) : CookieLoop → List Bytes → CookieLoop
  | st, [] => st
  | st, token :: ts =>
      match parseCookie token with
      | none => cookieLoop realloc st ts
      | some cookie =>
          if maxCookies ≤ st.cookiesIdx then st
          else if st.cookiesIdx = st.reallocTrigger then
            let size := st.cookiesAllocSize + 20
            match realloc size with
            | .fails => st.grow none
            | .stays => cookieLoop realloc ((st.grow (st.block.map fun _ => size)).store cookie) ts
            | .moves => cookieLoop realloc ((st.grow none).store cookie) ts
          else cookieLoop realloc (st.store cookie) ts

/-- `parse_req_cookies`, as far as the list of cookies goes. -/
def cookieRun (realloc : ℕ → Realloc) (req : HttpRequest) : CookieLoop :=
  match getHeader req .cookie with
  | none => { CookieLoop.start with block := none }
  | some value => cookieLoop realloc .start (tokens isCookieDelim value)

/-! ### Before the array grows, and after -/

variable {realloc : ℕ → Realloc}

/-- What was written stays written. Induction along the tokens. -/
theorem writes_subset_cookieLoop (st : CookieLoop) (ts : List Bytes) :
    st.writes ⊆ (cookieLoop realloc st ts).writes := by
  induction ts generalizing st with
  | nil => exact List.Subset.refl _
  | cons token ts ih =>
      have hstore : ∀ (st : CookieLoop) (cookie : Cookie),
          st.writes ⊆ (cookieLoop realloc (st.store cookie) ts).writes := fun st cookie =>
        List.Subset.trans (List.subset_append_left st.writes _) (ih (st.store cookie))
      rw [cookieLoop]
      cases parseCookie token with
      | none => exact ih st
      | some cookie =>
          simp only
          split
          · exact List.Subset.refl _
          · split
            · split
              · exact List.Subset.refl _
              · exact hstore (st.grow _) cookie
              · exact hstore (st.grow none) cookie
            · exact hstore st cookie

/-- **Before the array grows**, every cookie gets the next slot of the block it started with.
Induction along the tokens. -/
theorem cookieLoop_of_room {st : CookieLoop} {ts : List Bytes} (htrigger : st.reallocTrigger = 19)
    (hroom : st.cookiesIdx + (ts.filterMap parseCookie).length ≤ 19) :
    (cookieLoop realloc st ts).slots = st.slots ++ ts.filterMap parseCookie ∧
      ∀ w ∈ (cookieLoop realloc st ts).writes,
        w ∈ st.writes ∨ w.block = st.block ∧ w.index < 19 := by
  induction ts generalizing st with
  | nil => exact ⟨by simp [cookieLoop], fun w hw => Or.inl hw⟩
  | cons token ts ih =>
      rw [cookieLoop]
      cases hparsed : parseCookie token with
      | none =>
          rw [List.filterMap_cons_none hparsed] at hroom ⊢
          exact ih htrigger hroom
      | some cookie =>
          rw [List.filterMap_cons_some hparsed, List.length_cons] at hroom
          rw [List.filterMap_cons_some hparsed]
          have hmax : ¬ maxCookies ≤ st.cookiesIdx := by
            simp only [maxCookies]
            omega
          have hslot : ¬ st.cookiesIdx = st.reallocTrigger := by omega
          have hroom' : (st.store cookie).cookiesIdx + (ts.filterMap parseCookie).length ≤ 19 := by
            change st.cookiesIdx + 1 + _ ≤ 19
            omega
          obtain ⟨hslots, hwrites⟩ := @ih (st.store cookie) htrigger hroom'
          simp only [if_neg hmax, if_neg hslot]
          refine ⟨?_, ?_⟩
          · rw [hslots]
            simp [CookieLoop.store]
          · intro w hw
            rcases hwrites w hw with hold | hnew
            · rcases List.mem_append.mp hold with hold | hlast
              · exact Or.inl hold
              · rw [List.mem_singleton.mp hlast]
                exact Or.inr ⟨rfl, by change st.cookiesIdx < 19; omega⟩
            · exact Or.inr hnew

/-- The twentieth cookie is written outside its block, or not at all: the block has as many bytes
as it should have slots. -/
theorem cookieLoop_at_trigger {st : CookieLoop} (hsize : st.cookiesAllocSize = 20)
    (htrigger : st.reallocTrigger = 19) (hidx : st.cookiesIdx = 19)
    (hslots : st.slots.length = st.cookiesIdx) {token : Bytes} {cookie : Cookie}
    (hparsed : parseCookie token = some cookie) (ts : List Bytes) :
    (∃ w ∈ (cookieLoop realloc st (token :: ts)).writes, ¬ w.Inside) ∨
      (cookieLoop realloc st (token :: ts)).slots.length = 19 := by
  have hmax : ¬ maxCookies ≤ st.cookiesIdx := by
    rw [hidx]
    decide
  have hwritten : ∀ block,
      ⟨19, block⟩ ∈ (cookieLoop realloc ((st.grow block).store cookie) ts).writes := by
    intro block
    refine writes_subset_cookieLoop _ _ (List.mem_append_right _ ?_)
    rw [List.mem_singleton, ← hidx]
    rfl
  rw [cookieLoop, hparsed]
  simp only [if_neg hmax, if_pos (hidx.trans htrigger.symm)]
  split
  · exact Or.inr (hslots.trans hidx)
  · refine Or.inl ⟨_, hwritten _, ?_⟩
    rintro ⟨size, hmem, hle⟩
    obtain ⟨-, -, rfl⟩ := Option.mem_map.mp hmem
    have hsmall : ¬ (19 + 1) * sizeofCookie ≤ 20 + 20 := by decide
    rw [hsize] at hle
    exact hsmall hle
  · refine Or.inl ⟨_, hwritten _, ?_⟩
    rintro ⟨size, hmem, -⟩
    exact absurd hmem (by simp)

/-- **With one cookie more**, a slot is written outside its block, or the cookie is lost.
Induction along the tokens. -/
theorem cookieLoop_past_room {st : CookieLoop} {ts : List Bytes}
    (hsize : st.cookiesAllocSize = 20) (htrigger : st.reallocTrigger = 19)
    (hidx : st.cookiesIdx ≤ 19) (hslots : st.slots.length = st.cookiesIdx)
    (hpast : 19 < st.cookiesIdx + (ts.filterMap parseCookie).length) :
    (∃ w ∈ (cookieLoop realloc st ts).writes, ¬ w.Inside) ∨
      (cookieLoop realloc st ts).slots.length = 19 := by
  induction ts generalizing st with
  | nil =>
      rw [List.filterMap_nil, List.length_nil] at hpast
      omega
  | cons token ts ih =>
      cases hparsed : parseCookie token with
      | none =>
          rw [List.filterMap_cons_none hparsed] at hpast
          rw [cookieLoop, hparsed]
          exact ih hsize htrigger hidx hslots hpast
      | some cookie =>
          rw [List.filterMap_cons_some hparsed, List.length_cons] at hpast
          rcases Nat.lt_or_eq_of_le hidx with hbefore | hlast
          · have hmax : ¬ maxCookies ≤ st.cookiesIdx := by
              simp only [maxCookies]
              omega
            have hslot : ¬ st.cookiesIdx = st.reallocTrigger := by omega
            rw [cookieLoop, hparsed]
            simp only [if_neg hmax, if_neg hslot]
            refine ih hsize htrigger hbefore ?_ ?_
            · change (st.slots ++ [cookie]).length = st.cookiesIdx + 1
              rw [List.length_append, hslots, List.length_singleton]
            · change 19 < st.cookiesIdx + 1 + _
              omega
          · exact cookieLoop_at_trigger hsize htrigger hlast hslots hparsed ts

/-- **The loop is `parse_req_cookies`**: where that is defined, it stores the same cookies. -/
theorem parseReqCookies_eq_cookieRun (realloc : ℕ → Realloc) {req req' : HttpRequest}
    (h : parseReqCookies req = some req') (hfresh : req.cookies = []) :
    req'.cookies = (cookieRun realloc req).slots := by
  rw [parseReqCookies] at h
  split at h
  · rename_i hnone
    obtain rfl := Option.some.inj h
    have hheader : getHeader req .cookie = none := by rw [getHeader, hnone]; rfl
    rw [cookieRun, hheader, hfresh]
    rfl
  · split at h
    · rename_i hheader
      obtain rfl := Option.some.inj h
      rw [cookieRun, hheader, hfresh]
      rfl
    · rename_i value hheader
      simp only [Option.ite_none_right_eq_some, Option.some.injEq] at h
      obtain ⟨hroom, rfl⟩ := h
      rw [cookieRun, hheader]
      have hstart : CookieLoop.start.cookiesIdx +
          ((tokens isCookieDelim value).filterMap parseCookie).length ≤ 19 := by
        rw [show CookieLoop.start.cookiesIdx = 0 from rfl, Nat.zero_add]
        exact hroom
      exact (cookieLoop_of_room rfl hstart).1.symm

/-! ### Cookies as a client sends them -/

/-- A cookie as a client may send it. -/
structure WellFormedCookie (cookie : Cookie) : Prop where
  name_free : ∀ c ∈ cookie.name, c ≠ ch '=' ∧ c ≠ ch ';' ∧ c ≠ ch ' '
  value_free : ch ';' ∉ cookie.value
  value_start : cookie.value.head? ≠ some (ch ' ')

/-- A cookie in a header. -/
def cookieText (cookie : Cookie) : Bytes := cookie.name ++ ch '=' :: cookie.value

/-- The value of a `Cookie` header: the cookies joined by a semicolon and a blank. -/
def cookieHeader (cookies : List Cookie) : Bytes :=
  [ch ';', ch ' '].intercalate (cookies.map cookieText)

variable {cookie : Cookie} {cookies : List Cookie}

/-- A cookie is read back, with a blank before it or without. -/
theorem WellFormedCookie.parseCookie_eq (h : WellFormedCookie cookie) {l : Bytes}
    (hlead : ∀ c ∈ l, c = ch ' ') : parseCookie (l ++ cookieText cookie) = some cookie := by
  have hequals : ch '=' ∉ l ++ cookie.name := by
    intro hmem
    rcases List.mem_append.mp hmem with hmem | hmem
    · exact absurd (hlead _ hmem) (by decide)
    · exact (h.name_free _ hmem).1 rfl
  have hskip : ∀ {s : Bytes}, s.head? ≠ some (ch ' ') →
      s.dropWhile (· == ch ' ') = s := by
    intro s hs
    cases s with
    | nil => rfl
    | cons c s =>
        rw [List.head?_cons, Ne, Option.some.injEq] at hs
        exact List.dropWhile_cons_of_neg (by simpa using hs)
  have hname : cookie.name.head? ≠ some (ch ' ') := fun hhead =>
    (h.name_free _ (List.mem_of_head? hhead)).2.2 rfl
  have hleadDrop : (l ++ cookie.name).dropWhile (· == ch ' ') = cookie.name := by
    rw [List.dropWhile_append_of_pos fun c hc => by simp [hlead c hc], hskip hname]
  rw [parseCookie, cookieText, ← List.append_assoc, cutAt_append_cons hequals, Option.map_some]
  simp only [hleadDrop, hskip h.value_start]

/-- Texts joined by a semicolon and a blank are joined by a semicolon, a blank in front of each but
the first. Induction along the texts. -/
theorem intercalate_semicolon_blank (text : Bytes) (texts : List Bytes) :
    [ch ';', ch ' '].intercalate (text :: texts) =
      [ch ';'].intercalate (text :: texts.map (ch ' ' :: ·)) := by
  induction texts generalizing text with
  | nil => simp
  | cons next texts ih =>
      have hblank : [ch ';', ch ' '].intercalate ((ch ' ' :: next) :: texts) =
          ch ' ' :: [ch ';', ch ' '].intercalate (next :: texts) := by
        cases texts with
        | nil => simp
        | cons => simp [List.intercalate_cons_cons]
      rw [List.map_cons, List.intercalate_cons_cons, List.intercalate_cons_cons, ← ih, hblank,
        List.append_assoc, List.append_assoc]
      rfl

/-- **The tokens of a header** are its cookies. -/
theorem tokens_cookieHeader (hwf : ∀ cookie ∈ cookies, WellFormedCookie cookie) :
    (tokens isCookieDelim (cookieHeader cookies)).filterMap parseCookie = cookies := by
  have hfree : ∀ cookie ∈ cookies, ∀ c ∈ cookieText cookie, isCookieDelim c = false := by
    intro cookie hmem c hc
    rw [beq_eq_false_iff_ne]
    rcases List.mem_append.mp hc with hname | hrest
    · exact ((hwf cookie hmem).name_free c hname).2.1
    · rcases List.mem_cons.mp hrest with rfl | hvalue
      · decide
      · exact ne_of_mem_of_not_mem hvalue (hwf cookie hmem).value_free
  have hne : ∀ cookie : Cookie, cookieText cookie ≠ [] := fun cookie => by simp [cookieText]
  cases cookies with
  | nil => rfl
  | cons first cookies =>
      have hfirst := (hwf first List.mem_cons_self).parseCookie_eq (l := []) (by simp)
      have hothers : ∀ cookie ∈ cookies,
          (parseCookie ∘ (ch ' ' :: ·) ∘ cookieText) cookie = some cookie := fun cookie hmem =>
        (hwf cookie (List.mem_cons_of_mem _ hmem)).parseCookie_eq (l := [ch ' ']) (by simp)
      rw [cookieHeader, List.map_cons, intercalate_semicolon_blank, tokens_intercalate_of_delim]
      · rw [List.filterMap_cons_some (by simpa using hfirst), List.map_map, List.filterMap_map,
          List.filterMap_congr (g := some) hothers, List.filterMap_some]
      · decide
      · simp [hne]
      · intro text hmem
        rcases List.mem_cons.mp hmem with rfl | hmem
        · exact hfree first List.mem_cons_self
        · simp only [List.map_map, List.mem_map] at hmem
          obtain ⟨cookie, hcookie, rfl⟩ := hmem
          exact List.forall_mem_cons.mpr
            ⟨by decide, hfree cookie (List.mem_cons_of_mem _ hcookie)⟩

/-! ### When all cookies are kept -/

/-- The list holds some cookies, each written inside the block the list points to, and a cookie is
found by its name. -/
structure CookiesKept (realloc : ℕ → Realloc) (req : HttpRequest) (cookies : List Cookie) :
    Prop where
  inside : ∀ w ∈ (cookieRun realloc req).writes, w.Inside
  stored : (cookieRun realloc req).slots = cookies
  found : ∀ name, getReqCookie { req with cookies := (cookieRun realloc req).slots } name =
    (cookies.find? fun cookie => name = cookie.name).map Cookie.value

/-- **When all cookies are kept**, whatever `realloc` does: when there are fewer than twenty. -/
theorem cookies_kept_iff (realloc : ℕ → Realloc) {req : HttpRequest} {cookies : List Cookie}
    (hwf : ∀ cookie ∈ cookies, WellFormedCookie cookie)
    (hheader : getHeader req .cookie = some (cookieHeader cookies)) :
    CookiesKept realloc req cookies ↔ cookies.length ≤ 19 := by
  have hrun : cookieRun realloc req =
      cookieLoop realloc .start (tokens isCookieDelim (cookieHeader cookies)) := by
    rw [cookieRun, hheader]
  have hparsed := tokens_cookieHeader hwf
  have hidx : CookieLoop.start.cookiesIdx = 0 := rfl
  constructor
  · intro hkept
    by_contra hmany
    have hpast := @cookieLoop_past_room realloc .start
      (tokens isCookieDelim (cookieHeader cookies)) rfl rfl (by decide) rfl
      (by rw [hparsed, hidx]; omega)
    rw [← hrun] at hpast
    rcases hpast with ⟨w, hw, houtside⟩ | hlost
    · exact houtside (hkept.inside w hw)
    · rw [hkept.stored] at hlost
      omega
  · intro hfew
    obtain ⟨hslots, hwrites⟩ := @cookieLoop_of_room realloc .start
      (tokens isCookieDelim (cookieHeader cookies)) rfl (by rw [hparsed, hidx]; omega)
    rw [← hrun] at hslots hwrites
    have hstored : (cookieRun realloc req).slots = cookies := by
      rw [hslots, hparsed]
      rfl
    refine ⟨?_, hstored, fun name => by rw [hstored]; rfl⟩
    intro w hw
    rcases hwrites w hw with hold | ⟨hblock, hindex⟩
    · exact absurd hold List.not_mem_nil
    · refine ⟨20 * sizeofCookie, hblock, ?_⟩
      exact Nat.mul_le_mul_right _ (by omega)

/-- A request with some cookies of one name. -/
def cookieRequest (n : ℕ) : HttpRequest :=
  { HttpRequest.zero with
    headers := [⟨lit "Host", lit "bank"⟩,
      ⟨lit "Cookie", cookieHeader (List.replicate n ⟨lit "a", lit "b"⟩)⟩] }

/-- **The twentieth cookie** is written behind the end of the block `realloc` shrank. -/
theorem twentieth_cookie_outside :
    getHeader (cookieRequest 20) .cookie =
        some (cookieHeader (List.replicate 20 ⟨lit "a", lit "b"⟩)) ∧
      ⟨19, some 40⟩ ∈ (cookieRun (fun _ => .stays) (cookieRequest 20)).writes ∧
      ¬ CookiesKept (fun _ => .stays) (cookieRequest 20)
        (List.replicate 20 ⟨lit "a", lit "b"⟩) := by
  have hwrite : ⟨19, some 40⟩ ∈ (cookieRun (fun _ => .stays) (cookieRequest 20)).writes := by
    decide +kernel
  refine ⟨by decide +kernel, hwrite, ?_⟩
  intro hkept
  obtain ⟨size, hsize, hle⟩ := hkept.inside _ hwrite
  obtain rfl : 40 = size := Option.some.inj hsize
  exact absurd hle (by decide)

/-- Two cookies are kept. -/
theorem cookies_kept_two :
    CookiesKept (fun _ => .moves) (cookieRequest 2) (List.replicate 2 ⟨lit "a", lit "b"⟩) := by
  refine (@cookies_kept_iff (fun _ => .moves) (cookieRequest 2) _ ?_ (by decide)).mpr (by decide)
  intro cookie hmem
  rw [List.eq_of_mem_replicate hmem]
  exact ⟨by decide +kernel, by decide, by decide⟩

end CBank

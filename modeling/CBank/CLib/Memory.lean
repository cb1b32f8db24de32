import CBank.CLib.Text
import Mathlib.Logic.Function.Basic

/-!
# Strings in Memory

A C structure of character arrays as one run of bytes. `strcpy` knows nothing of the arrays
inside the structure: it writes a string and its NUL from an offset on, over whatever
follows, and only running past the whole memory has no defined result. `cstrAt` reads the
string that starts at an offset. `HasStr mem off s` says that the string `s` lies at `off`
with its NUL, and a write that touches neither keeps it.

A `Layout` lists the character arrays of a structure, and `Layout.Holds mem values` says that
each of them holds a string that fits it.

`strtok` writes a NUL over the delimiter that ends each token: `cutInPlace d n s` is the block of
a string after `n` calls, and `tokenOffset d n s` is where its token number `n` starts.

`snprintfs` is the idiom `offset += snprintf(buf + offset, size - offset, "%s", piece)`:
`snprintf` returns the length the piece would have needed, and the size argument wraps
around once the offset has passed the end of the buffer.

## Main results

* `strcpy_hasStr`: what was copied is there.
* `HasStr.strcpy`, `HasStr.set`: what was there stays, away from the write.
* `Layout.Holds.strcpy`: a copy that fits its array changes that array only.
* `cstrAt_cutInPlace`: a token that was cut reads as itself at its offset.
* `snprintfs_eq_some`: pieces that fit the buffer are joined.
-/

namespace CLib

/-- `strcpy(mem + off, s)`; `none` when the string and its NUL run past the memory. -/
def strcpy (mem : Bytes) (off : ℕ) (s : Bytes) : Option Bytes :=
  if off + s.length < mem.length then
    some (mem.take off ++ (s ++ 0 :: mem.drop (off + s.length + 1)))
  else none

/-- The C string that starts at an offset. -/
def cstrAt (mem : Bytes) (off : ℕ) : Bytes := cstr (mem.drop off)

/-- The string `s` lies at `off`, followed by its NUL. -/
def HasStr (mem : Bytes) (off : ℕ) (s : Bytes) : Prop :=
  NulFree s ∧ ∀ i, i ≤ s.length → mem[off + i]? = (s ++ [0])[i]?

theorem HasStr.cstrAt_eq {mem s : Bytes} {off : ℕ} (h : HasStr mem off s) :
    cstrAt mem off = s := by
  obtain ⟨hnul, hmem⟩ := h
  have hstarts : s ++ [0] <+: mem.drop off := by
    rw [List.prefix_iff_getElem?]
    intro i hi
    rw [List.length_append, List.length_singleton] at hi
    rw [List.getElem?_drop, hmem i (by omega), List.getElem?_eq_getElem]
  obtain ⟨rest, hrest⟩ := hstarts
  rw [cstrAt, ← hrest, List.append_assoc, List.singleton_append]
  exact cstr_append_nul hnul rest

theorem length_strcpy {mem mem' s : Bytes} {off : ℕ} (h : strcpy mem off s = some mem') :
    mem'.length = mem.length := by
  unfold strcpy at h
  split at h
  · rw [Option.some.injEq] at h
    subst h
    simp only [List.length_append, List.length_take, List.length_cons, List.length_drop]
    omega
  · simp at h

/-- What a byte of the memory is after a copy. -/
theorem getElem?_strcpy {mem mem' s : Bytes} {off : ℕ} (h : strcpy mem off s = some mem')
    (j : ℕ) : mem'[j]? =
      if off ≤ j ∧ j ≤ off + s.length then (s ++ [0])[j - off]? else mem[j]? := by
  unfold strcpy at h
  split at h
  · rename_i hfit
    rw [Option.some.injEq] at h
    subst h
    have htake : (mem.take off).length = off := by
      rw [List.length_take]
      omega
    rcases lt_or_ge j off with hj | hj
    · rw [if_neg (by omega), List.getElem?_append_left (by omega), List.getElem?_take_of_lt hj]
    · rw [List.getElem?_append_right (by omega), htake]
      rcases le_or_gt j (off + s.length) with hj' | hj'
      · rw [if_pos ⟨hj, hj'⟩, ← List.singleton_append (x := (0 : UInt8)), ← List.append_assoc,
          List.getElem?_append_left (by
            rw [List.length_append, List.length_singleton]
            omega)]
      · rw [if_neg (by omega), List.getElem?_append_right (by omega), List.getElem?_cons,
          if_neg (by omega), List.getElem?_drop]
        congr 1
        omega
  · simp at h

theorem strcpy_hasStr {mem mem' s : Bytes} {off : ℕ} (hs : NulFree s)
    (h : strcpy mem off s = some mem') : HasStr mem' off s := by
  refine ⟨hs, ?_⟩
  intro i hi
  rw [getElem?_strcpy h, if_pos (by omega), Nat.add_sub_cancel_left]

/-- A string stays where it is when a copy writes elsewhere. -/
theorem HasStr.strcpy {mem mem' s t : Bytes} {off off' : ℕ} (hs : HasStr mem off s)
    (h : strcpy mem off' t = some mem')
    (hsep : off + s.length < off' ∨ off' + t.length < off) : HasStr mem' off s := by
  refine ⟨hs.1, ?_⟩
  intro i hi
  rw [getElem?_strcpy h, if_neg (by omega)]
  exact hs.2 i hi

/-- A copy over the end of a string is read on from where the string was cut. -/
theorem HasStr.strcpy_over {mem mem' s t : Bytes} {off off' : ℕ} (hs : HasStr mem off s)
    (ht : NulFree t) (h : CLib.strcpy mem off' t = some mem') (hle : off ≤ off')
    (hin : off' ≤ off + s.length) : HasStr mem' off (s.take (off' - off) ++ t) := by
  have htake : (s.take (off' - off)).length = off' - off := by
    rw [List.length_take]
    omega
  refine ⟨NulFree.append (fun hmem => hs.1 (List.mem_of_mem_take hmem)) ht, ?_⟩
  intro i hi
  rw [List.length_append, htake] at hi
  rw [getElem?_strcpy h, List.append_assoc]
  rcases lt_or_ge i (off' - off) with hlt | hge
  · rw [if_neg (by omega), hs.2 i (by omega), List.getElem?_append_left (by omega),
      List.getElem?_append_left (by omega), List.getElem?_take_of_lt hlt]
  · have hafter : (s.take (off' - off) ++ (t ++ [0]))[i]? = (t ++ [0])[i - (off' - off)]? := by
      rw [List.getElem?_append_right (by omega), htake]
    rw [if_pos (by omega), hafter]
    congr 1
    omega

/-- The end of a string is a string. -/
theorem HasStr.drop {mem s : Bytes} {off k : ℕ} (hs : HasStr mem off s) (hk : k ≤ s.length) :
    HasStr mem (off + k) (s.drop k) := by
  refine ⟨fun hmem => hs.1 (List.mem_of_mem_drop hmem), ?_⟩
  intro i hi
  rw [List.length_drop] at hi
  have hbyte : (s ++ [0])[k + i]? = (s.drop k ++ [0])[i]? := by
    rw [← List.getElem?_drop, List.drop_append_of_le_length hk]
  rw [Nat.add_assoc, hs.2 (k + i) (by omega), hbyte]

/-- A copy leaves what lies before it. -/
theorem take_strcpy {mem mem' s : Bytes} {off n : ℕ} (h : CLib.strcpy mem off s = some mem')
    (hn : n ≤ off) : mem'.take n = mem.take n := by
  refine List.ext_getElem? fun j => ?_
  rw [List.getElem?_take, List.getElem?_take]
  split
  · rw [getElem?_strcpy h, if_neg (by omega)]
  · rfl

/-- Where `n` bytes were left alone and a string of less than `n` is found, no longer one was
copied. -/
theorem HasStr.length_lt_of_take {mem mem' s : Bytes} {off n : ℕ} (hs : HasStr mem off s)
    (htake : mem'.take (off + n) = mem.take (off + n))
    (hlen : (cstrAt mem' off).length < n) : s.length < n := by
  by_contra hlong
  have hdrop : ∀ m : Bytes, (m.take (off + n)).drop off = (m.drop off).take n := by
    intro m
    rw [List.drop_take, Nat.add_sub_cancel_left]
  have hbytes : (mem'.drop off).take n = s.take n := by
    rw [← hdrop, htake, hdrop]
    refine List.ext_getElem? fun j => ?_
    rw [List.getElem?_take, List.getElem?_take]
    split
    · rw [List.getElem?_drop, hs.2 j (by omega), List.getElem?_append_left (by omega)]
    · rfl
  have hnul : NulFree (s.take n) := fun hmem => hs.1 (List.mem_of_mem_take hmem)
  have hread : s.take n <+: cstrAt mem' off := by
    rw [cstrAt, ← List.take_append_drop n (mem'.drop off), hbytes]
    rw [cstr_append hnul]
    exact List.prefix_append _ _
  have hle := hread.length_le
  rw [List.length_take] at hle
  omega

/-- A string ends at the next NUL at the latest. -/
theorem length_cstrAt_le {mem : Bytes} {off j : ℕ} (hle : off ≤ j) (hnul : mem[j]? = some 0) :
    (cstrAt mem off).length ≤ j - off := by
  by_contra hlong
  have hmem : mem[j]? = (cstrAt mem off)[j - off]? := by
    obtain ⟨rest, hrest⟩ : cstrAt mem off <+: mem.drop off := List.takeWhile_prefix _
    have hdrop : (mem.drop off)[j - off]? = mem[j]? := by
      rw [List.getElem?_drop, Nat.add_sub_cancel' hle]
    rw [← hdrop, ← hrest, List.getElem?_append_left (by omega)]
  rw [hnul] at hmem
  exact nulFree_cstr _ (List.mem_of_getElem? hmem.symm)

/-- A string stays where it is when a byte is stored elsewhere. -/
theorem HasStr.set {mem s : Bytes} {off off' : ℕ} (hs : HasStr mem off s) (b : UInt8)
    (hsep : off + s.length < off' ∨ off' < off) : HasStr (mem.set off' b) off s := by
  refine ⟨hs.1, ?_⟩
  intro i hi
  rw [List.getElem?_set_ne (by omega)]
  exact hs.2 i hi

/-- A copy runs past the memory exactly when it has no room for the string and its NUL. -/
theorem strcpy_eq_none_iff {mem s : Bytes} {off : ℕ} :
    CLib.strcpy mem off s = none ↔ mem.length ≤ off + s.length := by
  rw [CLib.strcpy, ite_eq_right_iff, ← not_lt]
  simp

theorem fits_of_strcpy {mem mem' s : Bytes} {off : ℕ} (h : CLib.strcpy mem off s = some mem') :
    off + s.length < mem.length := by
  rw [← not_le, ← strcpy_eq_none_iff, h]
  simp

/-- A copy leaves a NUL at the end of the memory. -/
theorem getElem?_last_strcpy {mem mem' s : Bytes} {off n : ℕ}
    (h : CLib.strcpy mem off s = some mem') (hlen : mem.length = n + 1) (hnul : mem[n]? = some 0) :
    mem'[n]? = some 0 := by
  have hfits := fits_of_strcpy h
  rw [getElem?_strcpy h]
  split
  · rw [show n - off = s.length by omega, List.getElem?_concat_length]
  · exact hnul

theorem strcpy_of_fits {mem : Bytes} {off : ℕ} {s : Bytes}
    (h : off + s.length < mem.length) : ∃ mem', CLib.strcpy mem off s = some mem' := by
  rw [CLib.strcpy, if_pos h]
  exact ⟨_, rfl⟩

/-! ### Structures of character arrays -/

/-- A character array inside a structure. -/
structure Field where
  offset : ℕ
  size : ℕ

/-- The character arrays of a structure: they lie inside it and do not overlap. -/
structure Layout (ι : Type*) where
  field : ι → Field
  size : ℕ
  positive : ∀ i, 0 < (field i).size
  within : ∀ i, (field i).offset + (field i).size ≤ size
  disjoint : ∀ i j, i ≠ j → (field i).offset + (field i).size ≤ (field j).offset ∨
    (field j).offset + (field j).size ≤ (field i).offset

namespace Layout

variable {ι : Type*} {L : Layout ι} {mem : Bytes} {values : ι → Bytes}

/-- Each array of the structure holds a string that fits it. -/
structure Holds (L : Layout ι) (mem : Bytes) (values : ι → Bytes) : Prop where
  length : mem.length = L.size
  value : ∀ i, HasStr mem (L.field i).offset (values i) ∧ (values i).length < (L.field i).size

/-- A zeroed structure holds empty strings. -/
theorem holds_zero (L : Layout ι) : L.Holds (List.replicate L.size 0) fun _ => [] := by
  refine ⟨List.length_replicate, fun i => ⟨⟨List.not_mem_nil, ?_⟩, L.positive i⟩⟩
  intro j hj
  obtain rfl : j = 0 := by simpa using hj
  have hin := L.within i
  have hpos := L.positive i
  rw [List.getElem?_replicate, if_pos (by omega)]
  rfl

theorem Holds.cstrAt (h : L.Holds mem values) (i : ι) :
    CLib.cstrAt mem (L.field i).offset = values i := (h.value i).1.cstrAt_eq

variable [DecidableEq ι]

/-- **A copy that fits its array changes that array only.** -/
theorem Holds.strcpy (h : L.Holds mem values) {i : ι} {s : Bytes} (hs : NulFree s)
    (hlen : s.length < (L.field i).size) :
    ∃ mem', CLib.strcpy mem (L.field i).offset s = some mem' ∧
      L.Holds mem' (Function.update values i s) := by
  have hin := L.within i
  obtain ⟨mem', hcopy⟩ := strcpy_of_fits (by rw [h.length]; omega :
    (L.field i).offset + s.length < mem.length)
  refine ⟨mem', hcopy, (length_strcpy hcopy).trans h.length, fun j => ?_⟩
  by_cases hj : j = i
  · subst hj
    rw [Function.update_self]
    exact ⟨strcpy_hasStr hs hcopy, hlen⟩
  · rw [Function.update_of_ne hj]
    obtain ⟨hstr, hfit⟩ := h.value j
    refine ⟨hstr.strcpy hcopy ?_, hfit⟩
    rcases L.disjoint j i hj with hbefore | hafter
    · exact Or.inl (by omega)
    · exact Or.inr (by omega)

end Layout

/-! ### Cutting a string in place -/

/-- The block of a string, with its NUL, after `n` calls of `strtok`. -/
def cutInPlace (d : UInt8 → Bool) : ℕ → Bytes → Bytes
  | 0, s => s ++ [0]
  | n + 1, s => match strtok d s with
    | none => s ++ [0]
    | some (token, rest) => s.takeWhile d ++ (token ++ 0 ::
        if (s.takeWhile d).length + token.length < s.length then cutInPlace d n rest else [])

/-- Where the token number `n` of a string starts; `0` when there is none. -/
def tokenOffset (d : UInt8 → Bool) : ℕ → Bytes → ℕ
  | 0, s => (s.takeWhile d).length
  | n + 1, s => match strtok d s with
    | none => 0
    | some (token, rest) => (s.takeWhile d).length + token.length + 1 + tokenOffset d n rest

/-- A string around its first token: the delimiters before it, and either the end of the string
or one delimiter and the rest after it. -/
theorem strtok_eq_some {d : UInt8 → Bool} {s token rest : Bytes}
    (h : strtok d s = some (token, rest)) :
    (s = s.takeWhile d ++ token ∧ rest = []) ∨
      ∃ c, d c ∧ s = s.takeWhile d ++ (token ++ c :: rest) := by
  have hsplit := List.takeWhile_append_dropWhile (p := d) (l := s)
  unfold strtok at h
  split at h
  · simp at h
  · rename_i x xs hdrop
    obtain ⟨rfl, rfl⟩ := Prod.mk.inj (Option.some.inj h)
    rw [hdrop] at hsplit
    have htoken := List.takeWhile_append_dropWhile (p := fun y => !d y) (l := x :: xs)
    cases hrest : (x :: xs).dropWhile fun y => !d y with
    | nil =>
        left
        rw [hrest, List.append_nil] at htoken
        rw [htoken]
        refine ⟨hsplit.symm, ?_⟩
        rw [List.drop_eq_nil_iff]
        exact Nat.le_succ _
    | cons c rest =>
        right
        rw [hrest] at htoken
        have hc := List.head_dropWhile_not (fun y => !d y) (by rw [hrest]; simp)
        refine ⟨c, by simpa [hrest] using hc, ?_⟩
        have hafter : (x :: xs).drop (((x :: xs).takeWhile fun y => !d y).length + 1) = rest := by
          conv_lhs => rw [← htoken]
          rw [List.drop_append, List.drop_eq_nil_of_le (by rw [htoken]; omega), htoken]
          simp
        rw [hafter, htoken]
        exact hsplit.symm

theorem length_cutInPlace (d : UInt8 → Bool) (n : ℕ) (s : Bytes) :
    (cutInPlace d n s).length = s.length + 1 := by
  induction n generalizing s with
  | zero => simp [cutInPlace]
  | succ n ih =>
      rw [cutInPlace]
      split
      · simp
      · rename_i token rest hcut
        rcases strtok_eq_some hcut with ⟨hs, -⟩ | ⟨c, -, hs⟩
        · have hlen := congrArg List.length hs
          rw [List.length_append] at hlen
          rw [if_neg (by omega)]
          simp only [List.length_append, List.length_singleton]
          omega
        · have hlen := congrArg List.length hs
          simp only [List.length_append, List.length_cons] at hlen
          rw [if_pos (by omega)]
          simp only [List.length_append, List.length_cons, ih]
          omega

/-- **A token that was cut reads as itself.** Induction along the tokens before it. -/
theorem cstrAt_cutInPlace {d : UInt8 → Bool} {n m : ℕ} (hn : n < m) {s token : Bytes}
    (h : (tokens d s)[n]? = some token) (hnul : NulFree token) :
    cstrAt (cutInPlace d m s) (tokenOffset d n s) = token := by
  induction n generalizing m s with
  | zero =>
      obtain ⟨m, rfl⟩ := Nat.exists_eq_add_of_lt hn
      obtain ⟨ts, hts⟩ : ∃ ts, tokens d s = token :: ts := by
        cases hs : tokens d s with
        | nil => simp [hs] at h
        | cons t ts => exact ⟨ts, by simpa [hs] using h⟩
      obtain ⟨rest, hcut, -⟩ := tokens_eq_cons_iff.mp hts
      simp only [cutInPlace, hcut, tokenOffset]
      rw [cstrAt, List.drop_left]
      exact cstr_append_nul hnul _
  | succ n ih =>
      obtain ⟨m, rfl⟩ := Nat.exists_eq_add_of_lt hn
      cases hs : tokens d s with
      | nil => simp [hs] at h
      | cons t ts =>
          rw [hs, List.getElem?_cons_succ] at h
          obtain ⟨rest, hcut, rfl⟩ := tokens_eq_cons_iff.mp hs
          have hne : rest ≠ [] := by
            rintro rfl
            simp at h
          have hlt : (s.takeWhile d).length + t.length < s.length := by
            rcases strtok_eq_some hcut with ⟨-, hrest⟩ | ⟨c, -, hsplit⟩
            · exact absurd hrest hne
            · have hlen := congrArg List.length hsplit
              simp only [List.length_append, List.length_cons] at hlen
              omega
          have hrest := ih (m := n + 1 + m) (by omega) h
          rw [show n + 1 + m + 1 = (n + 1 + m) + 1 from rfl, cutInPlace, tokenOffset, hcut]
          simp only [if_pos hlt]
          rw [cstrAt] at hrest ⊢
          rw [← hrest, ← List.append_assoc, List.drop_append, List.drop_eq_nil_of_le (by
            rw [List.length_append]
            omega), List.nil_append, List.length_append]
          have hoff : (s.takeWhile d).length + t.length + 1 + tokenOffset d n rest -
              ((s.takeWhile d).length + t.length) = tokenOffset d n rest + 1 := by omega
          rw [hoff, List.drop_succ_cons]

/-- A first token with another one behind it ends at a delimiter. -/
theorem length_le_of_strtok {d : UInt8 → Bool} {s token rest : Bytes}
    (hcut : strtok d s = some (token, rest)) (hrest : tokens d rest ≠ []) :
    (s.takeWhile d).length + token.length + 1 + rest.length ≤ s.length := by
  rcases strtok_eq_some hcut with ⟨-, rfl⟩ | ⟨c, -, hsplit⟩
  · exact absurd rfl hrest
  · have hlen := congrArg List.length hsplit
    simp only [List.length_append, List.length_cons] at hlen
    omega

/-- A token and the next one lie one after the other, with a delimiter between them. Induction
along the tokens before them. -/
theorem tokenOffset_add_le {d : UInt8 → Bool} {n : ℕ} {s token next : Bytes}
    (h : (tokens d s)[n]? = some token) (hnext : (tokens d s)[n + 1]? = some next) :
    tokenOffset d n s + token.length + 1 + next.length ≤ s.length := by
  induction n generalizing s with
  | zero =>
      cases hs : tokens d s with
      | nil => simp [hs] at h
      | cons t ts =>
          obtain ⟨rest, hcut, rfl⟩ := tokens_eq_cons_iff.mp hs
          obtain rfl : t = token := by simpa [hs] using h
          rw [hs, List.getElem?_cons_succ] at hnext
          cases hrest : tokens d rest with
          | nil => simp [hrest] at hnext
          | cons t' ts =>
              obtain rfl : t' = next := by simpa [hrest] using hnext
              have h1 := length_le_of_strtok hcut (by rw [hrest]; simp)
              have h2 := length_le_of_mem_tokens (hrest ▸ List.mem_cons_self)
              rw [tokenOffset]
              omega
  | succ n ih =>
      cases hs : tokens d s with
      | nil => simp [hs] at h
      | cons t ts =>
          obtain ⟨rest, hcut, rfl⟩ := tokens_eq_cons_iff.mp hs
          rw [hs, List.getElem?_cons_succ] at h hnext
          have hle := ih h hnext
          cases hrest : tokens d rest with
          | nil => simp [hrest] at h
          | cons t' ts =>
              have hlen := length_le_of_strtok hcut (by rw [hrest]; simp)
              simp only [tokenOffset, hcut]
              omega

/-! ### Pointers into a string -/

/-- `strchr(mem + off, c)`; `none` is NULL. -/
def strchrAt (mem : Bytes) (off : ℕ) (c : UInt8) : Option ℕ :=
  (cutAt c (cstrAt mem off)).map fun parts => off + parts.1.length

/-- `strtok_r(mem + rest, d, &rest)`: the memory with the delimiter behind the token overwritten,
where the token starts, and where the next call goes on; `none` is NULL. -/
def strtokAt (d : UInt8 → Bool) (mem : Bytes) (rest : ℕ) : Option (Bytes × ℕ × ℕ) :=
  let s := cstrAt mem rest
  (strtok d s).map fun cut =>
    let start := rest + (s.takeWhile d).length
    let stop := start + cut.1.length
    if stop < rest + s.length then (mem.set stop 0, start, stop + 1) else (mem, start, stop)

theorem cstrAt_append_nul (front : Bytes) {s : Bytes} (hs : NulFree s) (rest : Bytes) :
    cstrAt (front ++ (s ++ 0 :: rest)) front.length = s := by
  rw [cstrAt, List.drop_left]
  exact cstr_append_nul hs rest

theorem strchrAt_append (front : Bytes) {before after : Bytes} {c : UInt8} (hc : c ∉ before)
    (hfree : NulFree (before ++ c :: after)) (rest : Bytes) :
    strchrAt (front ++ (before ++ c :: after ++ 0 :: rest)) front.length c =
      some (front.length + before.length) := by
  rw [strchrAt, cstrAt_append_nul front hfree, cutAt_append_cons hc]
  rfl

theorem strchrAt_eq_none (front : Bytes) {s : Bytes} {c : UInt8} (hc : c ∉ s) (hs : NulFree s)
    (rest : Bytes) : strchrAt (front ++ (s ++ 0 :: rest)) front.length c = none := by
  rw [strchrAt, cstrAt_append_nul front hs, cutAt_eq_none_iff.mpr hc]
  rfl

/-- No token is left. -/
theorem strtokAt_eq_none {d : UInt8 → Bool} (front : Bytes) {s : Bytes} (hs : NulFree s)
    (hcut : strtok d s = none) (rest : Bytes) :
    strtokAt d (front ++ (s ++ 0 :: rest)) front.length = none := by
  rw [strtokAt, cstrAt_append_nul front hs, hcut]
  rfl

/-- A token with a delimiter behind it. -/
theorem strtokAt_append_cons {d : UInt8 → Bool} (front : Bytes) {lead token more : Bytes}
    {c : UInt8} (hfree : NulFree (lead ++ (token ++ c :: more)))
    (hlead : (lead ++ (token ++ c :: more)).takeWhile d = lead)
    (hcut : strtok d (lead ++ (token ++ c :: more)) = some (token, more)) (rest : Bytes) :
    strtokAt d (front ++ (lead ++ (token ++ c :: more) ++ 0 :: rest)) front.length =
      some (front ++ (lead ++ (token ++ 0 :: more) ++ 0 :: rest), front.length + lead.length,
        front.length + lead.length + token.length + 1) := by
  have hstop : front.length + lead.length + token.length <
      front.length + (lead ++ (token ++ c :: more)).length := by
    simp only [List.length_append, List.length_cons]
    omega
  have hset : (front ++ (lead ++ (token ++ c :: more) ++ 0 :: rest)).set
      (front.length + lead.length + token.length) 0 =
        front ++ (lead ++ (token ++ 0 :: more) ++ 0 :: rest) := by
    have hlen : (front ++ lead ++ token).length = front.length + lead.length + token.length := by
      simp only [List.length_append]
    have hmem : front ++ (lead ++ (token ++ c :: more) ++ 0 :: rest) =
        (front ++ lead ++ token) ++ c :: (more ++ 0 :: rest) := by simp
    rw [hmem, ← hlen, List.set_append_right _ _ (Nat.le_refl _), Nat.sub_self, List.set_cons_zero]
    simp
  rw [strtokAt, cstrAt_append_nul front hfree, hcut]
  simp only [Option.map_some, hlead, if_pos hstop, hset]

/-- A token at the end of the string. -/
theorem strtokAt_append {d : UInt8 → Bool} (front : Bytes) {lead token : Bytes}
    (hfree : NulFree (lead ++ token)) (hlead : (lead ++ token).takeWhile d = lead)
    (hcut : strtok d (lead ++ token) = some (token, [])) (rest : Bytes) :
    strtokAt d (front ++ (lead ++ token ++ 0 :: rest)) front.length =
      some (front ++ (lead ++ token ++ 0 :: rest), front.length + lead.length,
        front.length + lead.length + token.length) := by
  have hstop : ¬ front.length + lead.length + token.length <
      front.length + (lead ++ token).length := by
    rw [List.length_append]
    omega
  rw [strtokAt, cstrAt_append_nul front hfree, hcut]
  simp only [Option.map_some, hlead, if_neg hstop]

/-- A string lies where its bytes are. -/
theorem hasStr_append (front : Bytes) {s : Bytes} (hs : NulFree s) (rest : Bytes) :
    HasStr (front ++ (s ++ 0 :: rest)) front.length s := by
  refine ⟨hs, fun i hi => ?_⟩
  have hmem : s ++ 0 :: rest = (s ++ [0]) ++ rest := by simp
  rw [List.getElem?_append_right (by omega), Nat.add_sub_cancel_left, hmem,
    List.getElem?_append_left (by rw [List.length_append, List.length_singleton]; omega)]

/-- What lies behind it does not matter to a string. -/
theorem HasStr.append {mem s : Bytes} {off : ℕ} (h : HasStr mem off s) (more : Bytes) :
    HasStr (mem ++ more) off s := by
  refine ⟨h.1, fun i hi => ?_⟩
  have hlt : i < (s ++ [0]).length := by
    rw [List.length_append, List.length_singleton]
    omega
  have hmem := h.2 i hi
  rw [List.getElem?_eq_getElem hlt] at hmem ⊢
  have hin := (List.getElem?_eq_some_iff.mp hmem).1
  rw [List.getElem?_append_left hin, hmem]

/-! ### Printing into a buffer piece by piece -/

/-- The text printed so far, cut or not, after one more piece; `none` once the offset has
passed the end of the buffer. -/
def snprintfStep (size : ℕ) (text piece : Bytes) : Option Bytes :=
  if text.length ≤ size then some (text ++ piece) else none

/-- The text `offset += snprintf(buf + offset, size - offset, "%s", piece)` leaves in a
buffer of `size` bytes, piece after piece. -/
def snprintfs (size : ℕ) (pieces : List Bytes) : Option Bytes :=
  (pieces.foldlM (snprintfStep size) []).map fun text => text.take (size - 1)

/-- Pieces that fit the buffer together are joined. -/
theorem snprintfs_eq_some {size : ℕ} {pieces : List Bytes}
    (h : pieces.flatten.length < size) : snprintfs size pieces = some pieces.flatten := by
  have hfold : ∀ (pieces : List Bytes) (text : Bytes),
      (text ++ pieces.flatten).length < size →
        pieces.foldlM (snprintfStep size) text = some (text ++ pieces.flatten) := by
    intro pieces
    induction pieces with
    | nil => simp
    | cons piece pieces ih =>
        intro text hlen
        have hstep : snprintfStep size text piece = some (text ++ piece) := by
          rw [snprintfStep, if_pos]
          rw [List.length_append] at hlen
          omega
        rw [List.foldlM_cons, hstep, Option.bind_eq_bind, Option.bind_some, ih]
        · simp
        · simpa using hlen
  rw [snprintfs, hfold pieces [] (by simpa using h), Option.map_some, List.nil_append,
    List.take_of_length_le (by omega)]

/-! ### Arrays and allocation -/

/-- `block[i] = x`; `none` outside the block. -/
def storeAt {α : Type*} (block : List α) (i : ℕ) (x : α) : Option (List α) :=
  if i < block.length then some (block.set i x) else none

theorem storeAt_append_cons {α : Type*} (done : List α) (x y : α) (rest : List α) :
    storeAt (done ++ x :: rest) done.length y = some (done ++ y :: rest) := by
  have hlen : done.length < (done ++ x :: rest).length := by
    rw [List.length_append, List.length_cons]
    omega
  rw [storeAt, if_pos hlen, List.set_append_right _ _ (Nat.le_refl _), Nat.sub_self,
    List.set_cons_zero]

/-- A store right behind `done`. -/
theorem storeAt_append {α : Type*} {done block : List α} (hdone : done <+: block)
    (hlen : done.length < block.length) (x : α) :
    ∃ block', storeAt block done.length x = some block' ∧ block'.length = block.length ∧
      done ++ [x] <+: block' := by
  obtain ⟨rest, rfl⟩ := hdone
  cases rest with
  | nil => simp at hlen
  | cons y rest =>
      exact ⟨done ++ x :: rest, storeAt_append_cons done y x rest, by simp, rest, by simp⟩

/-- What a block starts with is read at its index. -/
theorem getElem?_of_map_prefix {α β : Type*} {f : α → β} {xs : List α} {block : List β}
    (h : xs.map f <+: block) {j : ℕ} (hj : j < xs.length) : block[j]? = some (f xs[j]) := by
  rw [List.prefix_iff_getElem?.mp h j (by rwa [List.length_map]), List.getElem_map]

/-- The loop `for (; left > 0; i++, left--)` with a body that may return: what it returns, if it
does before `left` rounds are over. The outer `none` is a body that is not defined. -/
def searchFrom {β : Type*} (body : ℕ → Option (Option β)) (i : ℕ) : ℕ → Option (Option β)
  | 0 => some none
  | left + 1 => do
      match ← body i with
      | some b => some (some b)
      | none => searchFrom body (i + 1) left

/-- A search through `xs`, from whatever index it is read. -/
theorem searchFrom_eq {α β : Type*} (f : α → Option β) (xs : List α)
    {body : ℕ → Option (Option β)} {i : ℕ}
    (h : ∀ j (hj : j < xs.length), body (i + j) = some (f xs[j])) :
    searchFrom body i xs.length = some (xs.findSome? f) := by
  induction xs generalizing i with
  | nil => rfl
  | cons x xs ih =>
      have hfirst : body i = some (f x) := h 0 (by simp)
      have hrest : searchFrom body (i + 1) xs.length = some (xs.findSome? f) := ih fun j hj => by
        have hnext := h (j + 1) (by simpa using hj)
        rwa [show i + (j + 1) = i + 1 + j by omega] at hnext
      rw [List.length_cons, searchFrom, hfirst, Option.bind_eq_bind, Option.bind_some]
      cases hx : f x with
      | none => rw [List.findSome?_cons_of_isNone (by simp [hx]), ← hrest]
      | some b => rw [List.findSome?_cons_of_isSome (by simp [hx]), hx]

/-- The element of a search is that of the first match. -/
theorem findSome?_ite {α β : Type*} (p : α → Bool) (g : α → β) (xs : List α) :
    (xs.findSome? fun x => if p x then some (g x) else none) = (xs.find? p).map g := by
  induction xs with
  | nil => rfl
  | cons x xs ih =>
      rw [List.findSome?_cons, List.find?_cons]
      cases p x with
      | true => rfl
      | false => exact ih

/-- What `malloc` does: a block of the size that was asked for, with whatever it holds, or
NULL. -/
structure Allocator where
  alloc : ℕ → Option Bytes
  length_alloc : ∀ {size block}, alloc size = some block → block.length = size

/-- `realloc`: what fits of the old block is kept. -/
def Allocator.realloc (A : Allocator) (block : Bytes) (size : ℕ) : Option Bytes :=
  (A.alloc size).map fun fresh => block.take size ++ fresh.drop block.length

/-- Every request for at most `n` bytes is granted. -/
def Allocator.Provides (A : Allocator) (n : ℕ) : Prop :=
  ∀ size ≤ n, (A.alloc size).isSome

/-- A block that grows keeps what it holds. -/
theorem Allocator.Provides.realloc_eq_some {A : Allocator} {n size : ℕ} {block : Bytes}
    (h : A.Provides n) (hsize : size ≤ n) (hle : block.length ≤ size) :
    ∃ block', A.realloc block size = some block' ∧ block'.length = size ∧ block <+: block' := by
  obtain ⟨fresh, hfresh⟩ := Option.isSome_iff_exists.mp (h size hsize)
  have hlen := A.length_alloc hfresh
  refine ⟨block ++ fresh.drop block.length, ?_, ?_, List.prefix_append _ _⟩
  · rw [Allocator.realloc, hfresh, Option.map_some, List.take_of_length_le hle]
  · rw [List.length_append, List.length_drop]
    omega

/-- An allocator that has room for everything, in blocks full of `b`. -/
def Allocator.filled (b : UInt8) : Allocator where
  alloc size := some (List.replicate size b)
  length_alloc h := by
    rw [← Option.some.inj h]
    exact List.length_replicate

theorem Allocator.provides_filled (b : UInt8) (n : ℕ) : (Allocator.filled b).Provides n :=
  fun _ _ => rfl

end CLib

import Mathlib.Algebra.GroupWithZero.Nat
import Mathlib.Data.List.Basic
import Mathlib.Data.List.DropRight
import Mathlib.Data.List.Forall2
import Mathlib.Data.List.Infix

/-!
# C Strings as Lists

The string functions of the C standard library that a text-processing program leans on,
as functions on lists. A C string is the list of its bytes up to, and without, the
terminating NUL; a buffer that may hold anything is read back through `cstr`, which
stops at the first NUL. The functions that only compare elements are stated over an
arbitrary type with decidable equality.

* `cutAt c s` is `strchr(s, c)` followed by overwriting the hit with NUL: the text before
  the first `c` and the text after it.
* `strstr pat s` is the suffix of `s` that starts at the first occurrence of `pat`.
* `strtok d s` is one step of `strtok_r`; `tokens d s` is the whole loop
  `while ((t = strtok_r(rest, d, &rest)))`.

## Main results

* `strstr_eq_some_iff`: `strstr` finds the first occurrence and nothing else.
* `firstOccurrence_of_absent`: a key such as `name=`, whose last element occurs
  nowhere else in it, is first found where the text before it does not contain it.
* `tokens_eq_strtok`: the loop is the iteration of the step.
* `splitPair_eq_cutAtStr`: cutting a text at every `CRLF` is a loop over `strstr`.
* `tokens_intercalate`: joining non-empty separator-free pieces and cutting again is the
  identity.
-/

namespace CLib

/-- A C string, or any run of bytes. -/
abbrev Bytes := List UInt8

/-- The bytes of an ASCII literal. -/
def lit (s : String) : Bytes := s.toList.map fun c => c.toNat.toUInt8

/-- The byte of an ASCII character. -/
def ch (c : Char) : UInt8 := c.toNat.toUInt8

/-- The newline byte. -/
def newline : UInt8 := 10

/-- A byte string without NUL: what can be the value of a C string. -/
def NulFree (s : Bytes) : Prop := (0 : UInt8) ∉ s

instance (s : Bytes) : Decidable (NulFree s) := inferInstanceAs (Decidable (0 ∉ s))

/-- Reading up to a stop takes what is in front whole, when that holds no stop. -/
theorem takeWhile_ne_append {α : Type*} [DecidableEq α] {c : α} {s : List α} (h : c ∉ s)
    (t : List α) : (s ++ t).takeWhile (· ≠ c) = s ++ t.takeWhile (· ≠ c) :=
  List.takeWhile_append_of_pos fun x hx => by simpa using ne_of_mem_of_not_mem hx h

/-- The C string a buffer holds: its bytes up to the first NUL. -/
def cstr (buf : Bytes) : Bytes := buf.takeWhile (· ≠ 0)

theorem NulFree.append {s t : Bytes} (hs : NulFree s) (ht : NulFree t) :
    NulFree (s ++ t) := by
  simp only [NulFree, List.mem_append, not_or]
  exact ⟨hs, ht⟩

theorem nulFree_cstr (buf : Bytes) : NulFree (cstr buf) := by
  intro h
  simpa using List.all_eq_true.mp List.all_takeWhile 0 h

/-- A string in front is read to its end. -/
theorem cstr_append {s : Bytes} (hs : NulFree s) (t : Bytes) : cstr (s ++ t) = s ++ cstr t :=
  takeWhile_ne_append hs t

/-- A C string followed by its NUL reads back as itself. -/
theorem cstr_append_nul {s : Bytes} (hs : NulFree s) (rest : Bytes) :
    cstr (s ++ 0 :: rest) = s := by
  rw [cstr_append hs]
  exact List.append_nil s

/-- Reading a NUL-free run of bytes as a C string changes nothing. -/
theorem cstr_of_nulFree {s : Bytes} (hs : NulFree s) : cstr s = s := by
  have h := cstr_append hs []
  rwa [List.append_nil, show cstr [] = [] from rfl, List.append_nil] at h

section Generic

variable {α : Type*}

/-! ### Going through a list -/

/-- In two related lists every element has a partner. -/
theorem exists_partner {α β : Type*} {R : α → β → Prop} {as : List α} {bs : List β}
    (h : List.Forall₂ R as bs) :
    (∀ a ∈ as, ∃ b ∈ bs, R a b) ∧ ∀ b ∈ bs, ∃ a ∈ as, R a b := by
  induction h with
  | nil => simp
  | @cons a b as bs hab _ ih =>
      constructor
      · rintro x (_ | ⟨_, hx⟩)
        · exact ⟨b, List.mem_cons_self, hab⟩
        · obtain ⟨y, hy, hxy⟩ := ih.1 x hx
          exact ⟨y, List.mem_cons_of_mem _ hy, hxy⟩
      · rintro y (_ | ⟨_, hy⟩)
        · exact ⟨a, List.mem_cons_self, hab⟩
        · obtain ⟨x, hx, hxy⟩ := ih.2 y hy
          exact ⟨x, List.mem_cons_of_mem _ hx, hxy⟩

/-- What a loop that can fail returns: one result for each element. -/
theorem mapM_eq_some_iff {α β : Type*} {f : α → Option β} {l : List α} {bs : List β} :
    l.mapM f = some bs ↔ List.Forall₂ (fun a b => f a = some b) l bs := by
  induction l generalizing bs with
  | nil => simp [eq_comm]
  | cons a l ih =>
      rw [List.mapM_cons, Option.bind_eq_bind, Option.bind_eq_some_iff, List.forall₂_cons_left_iff]
      simp only [Option.bind_eq_bind, Option.bind_eq_some_iff, Option.pure_def,
        Option.some.injEq, ih]
      constructor
      · rintro ⟨b, hb, rest, hrest, rfl⟩
        exact ⟨b, rest, hb, hrest, rfl⟩
      · rintro ⟨b, rest, hb, hrest, rfl⟩
        exact ⟨b, hb, rest, hrest, rfl⟩

/-- A loop over the indices below `n` returns a list of `n` results. -/
theorem mapM_range_eq_some_iff {β : Type*} {f : ℕ → Option β} {n : ℕ} {bs : List β} :
    (List.range n).mapM f = some bs ↔ bs.length = n ∧ ∀ j < n, f j = bs[j]? := by
  rw [mapM_eq_some_iff, List.forall₂_iff_get]
  simp only [List.length_range, List.get_eq_getElem, List.getElem_range]
  constructor
  · rintro ⟨hlen, h⟩
    refine ⟨hlen.symm, fun j hj => ?_⟩
    rw [List.getElem?_eq_getElem (hlen ▸ hj)]
    exact h j hj (hlen ▸ hj)
  · rintro ⟨hlen, h⟩
    refine ⟨hlen.symm, fun j hj hj' => ?_⟩
    rw [← List.getElem?_eq_getElem hj']
    exact h j hj

/-- Texts joined by one element: the first one, and every further one with the element. -/
theorem intercalate_cons_eq {α : Type*} (c : α) (l : List α) (ls : List (List α)) :
    [c].intercalate (l :: ls) = l ++ ls.flatMap (c :: ·) := by
  induction ls generalizing l with
  | nil => simp
  | cons l' ls ih => rw [List.intercalate_cons_cons, ih, List.flatMap_cons, List.append_assoc]; rfl

theorem not_mem_intercalate {α : Type*} {c x : α} (hx : x ≠ c) {ls : List (List α)}
    (h : ∀ l ∈ ls, x ∉ l) : x ∉ [c].intercalate ls := by
  cases ls with
  | nil => exact List.not_mem_nil
  | cons l ls =>
      rw [intercalate_cons_eq, List.mem_append, List.mem_flatMap, not_or]
      refine ⟨h l List.mem_cons_self, ?_⟩
      rintro ⟨l', hl', hmem⟩
      rcases List.mem_cons.mp hmem with rfl | hmem
      · exact hx rfl
      · exact h l' (List.mem_cons_of_mem l hl') hmem

theorem length_intercalate {α : Type*} (c : α) (ls : List (List α)) :
    ([c].intercalate ls).length = (ls.map List.length).sum + (ls.length - 1) := by
  cases ls with
  | nil => rfl
  | cons l ls =>
      have hrest : (ls.flatMap (c :: ·)).length = (ls.map List.length).sum + ls.length := by
        induction ls with
        | nil => rfl
        | cons l ls ih =>
            simp only [List.flatMap_cons, List.length_append, List.length_cons, List.map_cons,
              List.sum_cons, ih]
            omega
      rw [intercalate_cons_eq, List.length_append, hrest, List.map_cons, List.sum_cons,
        List.length_cons, Nat.add_sub_cancel]
      omega

/-- A loop whose results are mapped. -/
theorem mapM_map_right {α β γ : Type*} (f : α → Option β) (g : β → γ) (l : List α) :
    (l.mapM fun a => (f a).map g) = (l.mapM f).map (List.map g) := by
  induction l with
  | nil => rfl
  | cons a l ih =>
      rw [List.mapM_cons, List.mapM_cons, ih]
      cases f a with
      | none => rfl
      | some b =>
          cases l.mapM f with
          | none => rfl
          | some bs => rfl

/-! ### First occurrences -/

/-- `pat` occurs in `s` between `pre` and `post`, and nowhere earlier. -/
def FirstOccurrence (pat s pre post : List α) : Prop :=
  s = pre ++ pat ++ post ∧
    ∀ pre' post', s = pre' ++ pat ++ post' → pre.length ≤ pre'.length

theorem FirstOccurrence.unique {pat s pre post pre' post' : List α}
    (h : FirstOccurrence pat s pre post) (h' : FirstOccurrence pat s pre' post') :
    pre = pre' ∧ post = post' := by
  have hlen : pre.length = pre'.length :=
    le_antisymm (h.2 _ _ h'.1) (h'.2 _ _ h.1)
  have heq : pre ++ (pat ++ post) = pre' ++ (pat ++ post') := by
    rw [← List.append_assoc, ← List.append_assoc, ← h.1, ← h'.1]
  obtain ⟨hpre, hrest⟩ := List.append_inj heq hlen
  exact ⟨hpre, List.append_cancel_left hrest⟩

/-- The first occurrence moves one to the right under a `cons` that starts none. -/
theorem FirstOccurrence.cons {pat s pre post : List α} {x : α} (hx : ¬ pat <+: x :: s)
    (h : FirstOccurrence pat s pre post) :
    FirstOccurrence pat (x :: s) (x :: pre) post := by
  refine ⟨by rw [h.1]; rfl, ?_⟩
  intro pre' post' heq
  cases pre' with
  | nil => exact absurd ⟨post', heq.symm⟩ hx
  | cons y pre' =>
      simp only [List.cons_append, List.cons.injEq] at heq
      simpa using h.2 pre' post' heq.2

/-- **Where a key is found.** An occurrence of a key `p ++ [e]` cannot straddle the end of
the text `a` before it when `e` does not occur in `p`: its last element would be one of
`p`. So the key is first found after `a` as soon as `a` does not contain it. -/
theorem firstOccurrence_of_absent {p a : List α} {e : α} (he : e ∉ p)
    (ha : ¬ (p ++ [e]) <:+: a) (post : List α) :
    FirstOccurrence (p ++ [e]) (a ++ (p ++ [e]) ++ post) a post := by
  refine ⟨rfl, ?_⟩
  intro pre' post' heq
  by_contra hlt
  rw [not_le] at hlt
  by_cases hin : (pre' ++ (p ++ [e])).length ≤ a.length
  · have hpre : pre' ++ (p ++ [e]) <+: a := by
      refine List.prefix_of_prefix_length_le ⟨post', heq.symm⟩ ?_ hin
      exact ⟨p ++ [e] ++ post, by simp⟩
    obtain ⟨c, hc⟩ := hpre
    exact ha ⟨pre', c, hc⟩
  · have hlen : (pre' ++ (p ++ [e])).length = pre'.length + p.length + 1 := by
      simp [Nat.add_assoc]
    have hat : (pre' ++ (p ++ [e]) ++ post')[pre'.length + p.length]? = some e := by
      rw [List.append_assoc, List.getElem?_append_right (by omega), List.append_assoc,
        List.getElem?_append_right (by omega)]
      simp
    rw [← heq, List.append_assoc, List.getElem?_append_right (by omega), List.append_assoc,
      List.getElem?_append_left (by omega)] at hat
    exact he (List.mem_of_getElem? hat)

/-- The first occurrence stays the first one when the text goes on. -/
theorem FirstOccurrence.append_right {pat s pre post : List α}
    (h : FirstOccurrence pat s pre post) (t : List α) :
    FirstOccurrence pat (s ++ t) pre (post ++ t) := by
  refine ⟨by rw [h.1]; simp, ?_⟩
  intro pre' post' heq
  by_contra hlt
  rw [not_le] at hlt
  -- an earlier occurrence would lie in the text before `t`
  have hlen : (pre' ++ pat).length ≤ s.length := by
    rw [h.1]
    simp only [List.length_append]
    omega
  obtain ⟨rest, hrest⟩ : pre' ++ pat <+: s :=
    List.prefix_of_prefix_length_le ⟨post', heq.symm⟩ ⟨t, rfl⟩ hlen
  exact absurd (h.2 pre' rest hrest.symm) (not_le.mpr hlt)

/-- A key that ends in `e` does not occur later in a text that goes on without an `e`. -/
theorem infix_of_infix_append {p s t : List α} {e : α} (ht : e ∉ t)
    (h : p ++ [e] <:+: s ++ t) : p ++ [e] <:+: s := by
  obtain ⟨a, b, h⟩ := h
  have hsplit : (a ++ p) ++ e :: b = s ++ t := by
    rw [← h]
    simp
  rcases List.append_eq_append_iff.mp hsplit with ⟨u, rfl, hu⟩ | ⟨u, -, hu⟩
  · cases u with
    | nil => exact absurd (by rw [← List.nil_append t, ← hu]; exact List.mem_cons_self) ht
    | cons x u =>
        obtain ⟨rfl, -⟩ := List.cons.inj hu
        exact ⟨a, u, by simp⟩
  · exact absurd (by rw [hu]; simp) ht

/-- A pattern without the separator occurs before it or after it. -/
theorem infix_append_cons {pat a b : List α} {x : α} (hx : x ∉ pat) (h : pat <:+: a ++ x :: b) :
    pat <:+: a ∨ pat <:+: b := by
  obtain ⟨s, t, h⟩ := h
  rw [List.append_assoc] at h
  rcases List.append_eq_append_iff.mp h with ⟨u, ha, hu⟩ | ⟨u, hs, hu⟩
  · rcases List.append_eq_append_iff.mp hu with ⟨w, hw, -⟩ | ⟨w, hpat, hw⟩
    · exact Or.inl ⟨s, w, by rw [ha, hw, List.append_assoc]⟩
    · cases w with
      | nil => exact Or.inl ⟨s, [], by simp [ha, hpat]⟩
      | cons y w =>
          obtain ⟨rfl, -⟩ := List.cons.inj hw
          exact absurd (by simp [hpat]) hx
  · cases u with
    | nil =>
        cases pat with
        | nil => exact Or.inl List.nil_infix
        | cons y pat =>
            obtain ⟨rfl, -⟩ := List.cons.inj hu
            exact absurd List.mem_cons_self hx
    | cons y u =>
        obtain ⟨-, hb⟩ := List.cons.inj hu
        exact Or.inr ⟨u, t, by simp [hb]⟩

/-- A key that ends in `e` occurs in a key and its value only at the end of the key, or in the
value. -/
theorem infix_key_value {p k v : List α} {e : α} (hp : e ∉ p) (hk : e ∉ k)
    (h : p ++ [e] <:+: k ++ e :: v) : p <:+ k ∨ p ++ [e] <:+: v := by
  obtain ⟨s, t, h⟩ := h
  have hsplit : (s ++ p) ++ e :: t = k ++ e :: v := by
    rw [← h]
    simp
  rcases List.append_eq_append_iff.mp hsplit with ⟨u, hu, hrest⟩ | ⟨u, hu, hrest⟩
  · cases u with
    | nil => exact Or.inl ⟨s, by simp [hu]⟩
    | cons y u =>
        obtain ⟨rfl, -⟩ := List.cons.inj hrest
        exact absurd (by simp [hu]) hk
  · cases u with
    | nil => exact Or.inl ⟨s, by simpa using hu⟩
    | cons y u =>
        obtain ⟨rfl, hv⟩ := List.cons.inj hrest
        rcases List.append_eq_append_iff.mp hu with ⟨w, hw, hp'⟩ | ⟨w, hw, hw'⟩
        · exact absurd (by simp [hp']) hp
        · cases w with
          | nil =>
              rw [List.nil_append] at hw'
              exact absurd (by simp [← hw']) hp
          | cons z w =>
              obtain ⟨-, rfl⟩ := List.cons.inj hw'
              exact Or.inr ⟨w, t, by simp [hv]⟩

/-! ### `strtok` -/

/-- One step of `strtok_r`: skip leading delimiters, return the run up to the next
delimiter and what follows that delimiter; `none` when only delimiters are left. -/
def strtok (d : α → Bool) (s : List α) : Option (List α × List α) :=
  match s.dropWhile d with
  | [] => none
  | x :: xs =>
      let t := (x :: xs).takeWhile fun y => !d y
      some (t, (x :: xs).drop (t.length + 1))

/-- The tokens the loop `while ((t = strtok_r(rest, d, &rest)))` goes through. -/
def tokens (d : α → Bool) (s : List α) : List (List α) :=
  (s.splitOnP d).filter fun t => !t.isEmpty

@[simp] theorem tokens_nil (d : α → Bool) : tokens d [] = [] := by
  simp [tokens]

theorem tokens_append_cons {d : α → Bool} {x : α} (hx : d x) (s t : List α) :
    tokens d (s ++ x :: t) = tokens d s ++ tokens d t := by
  rw [tokens, List.splitOnP_append_cons s t hx, List.filter_append, tokens, tokens]

theorem tokens_cons_delim {d : α → Bool} {x : α} (hx : d x) (s : List α) :
    tokens d (x :: s) = tokens d s := by
  simpa using tokens_append_cons hx [] s

/-- A non-empty text without delimiters is its own only token. -/
theorem tokens_of_free {d : α → Bool} {s : List α} (hs : s ≠ [])
    (hfree : ∀ y ∈ s, d y = false) : tokens d s = [s] := by
  have hne : s.isEmpty = false := List.isEmpty_eq_false_iff.mpr hs
  rw [tokens, List.splitOnP_eq_singleton hfree, List.filter_singleton, hne]
  rfl

theorem tokens_append_cons_of_free {d : α → Bool} {x : α} {s : List α} (hs : s ≠ [])
    (hfree : ∀ y ∈ s, d y = false) (hx : d x) (t : List α) :
    tokens d (s ++ x :: t) = s :: tokens d t := by
  rw [tokens_append_cons hx, tokens_of_free hs hfree, List.singleton_append]

/-- A text that does not start with a delimiter starts with a token: it is one, or one
followed by a delimiter. -/
theorem exists_token_split {d : α → Bool} {x : α} (hx : d x = false) (s : List α) :
    ∃ t, t ≠ [] ∧ (∀ y ∈ t, d y = false) ∧
      (x :: s = t ∨ ∃ y rest, d y ∧ x :: s = t ++ y :: rest) := by
  have hsplit := List.takeWhile_append_dropWhile (p := fun y => !d y) (l := x :: s)
  refine ⟨(x :: s).takeWhile fun y => !d y, by simp [hx], ?_, ?_⟩
  · intro y hy
    simpa using List.all_eq_true.mp List.all_takeWhile y hy
  · cases hrest : (x :: s).dropWhile fun y => !d y with
    | nil =>
        rw [hrest, List.append_nil] at hsplit
        exact Or.inl hsplit.symm
    | cons y rest =>
        have hy := List.head_dropWhile_not (fun y => !d y) (by rw [hrest]; simp)
        rw [hrest] at hsplit
        refine Or.inr ⟨y, rest, ?_, hsplit.symm⟩
        simpa [hrest] using hy

theorem strtok_append_cons {d : α → Bool} {t : List α} (ht : t ≠ [])
    (hfree : ∀ y ∈ t, d y = false) {y : α} (hy : d y) (rest : List α) :
    strtok d (t ++ y :: rest) = some (t, rest) := by
  obtain ⟨x, t, rfl⟩ := List.exists_cons_of_ne_nil ht
  have hx : d x = false := hfree x List.mem_cons_self
  have htake : (x :: t ++ y :: rest).takeWhile (fun z => !d z) = x :: t := by
    rw [List.takeWhile_append_of_pos (fun z hz => by simpa using hfree z hz)]
    simp [hy]
  have hdrop : (x :: t ++ y :: rest).dropWhile d = x :: (t ++ y :: rest) := by simp [hx]
  rw [List.cons_append] at htake hdrop ⊢
  simp [strtok, hdrop, htake]

theorem strtok_of_free {d : α → Bool} {t : List α} (ht : t ≠ [])
    (hfree : ∀ y ∈ t, d y = false) : strtok d t = some (t, []) := by
  obtain ⟨x, t, rfl⟩ := List.exists_cons_of_ne_nil ht
  have hx : d x = false := hfree x List.mem_cons_self
  have htake : (x :: t ++ []).takeWhile (fun z => !d z) = x :: t ++ [].takeWhile _ :=
    List.takeWhile_append_of_pos fun z hz => by simpa using hfree z hz
  rw [List.append_nil, List.takeWhile_nil, List.append_nil] at htake
  have hdrop : (x :: t).dropWhile d = x :: t := by simp [hx]
  simp [strtok, hdrop, htake]

/-- **The loop iterates the step**: the tokens are the one `strtok` returns followed by
the tokens of what it leaves. -/
theorem tokens_eq_strtok (d : α → Bool) (s : List α) :
    tokens d s = match strtok d s with
      | none => []
      | some (t, rest) => t :: tokens d rest := by
  induction s with
  | nil => simp [strtok]
  | cons x s ih =>
      by_cases hx : d x
      · rw [tokens_cons_delim hx, ih]
        simp [strtok, hx]
      · obtain ⟨t, ht, hfree, heq | ⟨y, rest, hy, heq⟩⟩ :=
          exists_token_split (Bool.eq_false_iff.mpr hx) s
        · rw [heq, strtok_of_free ht hfree, tokens_of_free ht hfree]
          simp
        · rw [heq, strtok_append_cons ht hfree hy, tokens_append_cons_of_free ht hfree hy]

theorem tokens_eq_cons_iff {d : α → Bool} {s t : List α} {ts : List (List α)} :
    tokens d s = t :: ts ↔ ∃ rest, strtok d s = some (t, rest) ∧ tokens d rest = ts := by
  rw [tokens_eq_strtok]
  constructor
  · intro h
    split at h
    · simp at h
    · rename_i t' rest heq
      simp only [List.cons.injEq] at h
      obtain ⟨rfl, rfl⟩ := h
      exact ⟨rest, heq, rfl⟩
  · rintro ⟨rest, hs, rfl⟩
    rw [hs]

/-- A text is leading delimiters, and then nothing, a token, or a token that a delimiter ends. -/
theorem exists_lead_split (d : α → Bool) (s : List α) :
    ∃ lead, (∀ y ∈ lead, d y = true) ∧ (s = lead ∨ ∃ t, t ≠ [] ∧ (∀ y ∈ t, d y = false) ∧
      (s = lead ++ t ∨ ∃ y rest, d y ∧ s = lead ++ (t ++ y :: rest))) := by
  refine ⟨s.takeWhile d, fun y hy => List.all_eq_true.mp List.all_takeWhile y hy, ?_⟩
  have hsplit := List.takeWhile_append_dropWhile (p := d) (l := s)
  cases hrest : s.dropWhile d with
  | nil => exact Or.inl (by rw [hrest, List.append_nil] at hsplit; exact hsplit.symm)
  | cons x rest =>
      have hx := List.head_dropWhile_not d (l := s) (by rw [hrest]; simp)
      simp only [hrest, List.head_cons] at hx
      obtain ⟨t, ht, hfree, heq | ⟨y, r, hy, heq⟩⟩ := exists_token_split hx rest
      · exact Or.inr ⟨t, ht, hfree, Or.inl (by rw [← heq, ← hrest, hsplit])⟩
      · exact Or.inr ⟨t, ht, hfree, Or.inr ⟨y, r, hy, by rw [← heq, ← hrest, hsplit]⟩⟩

/-- Leading delimiters add no token. -/
theorem tokens_append_delims {d : α → Bool} {lead : List α} (h : ∀ y ∈ lead, d y = true)
    (s : List α) : tokens d (lead ++ s) = tokens d s := by
  induction lead with
  | nil => rfl
  | cons x lead ih =>
      rw [List.cons_append, tokens_cons_delim (h x List.mem_cons_self),
        ih fun y hy => h y (List.mem_cons_of_mem _ hy)]

theorem rdropWhile_append_of_pos {p : α → Bool} {t : List α} (h : ∀ y ∈ t, p y = true)
    (s : List α) : (s ++ t).rdropWhile p = s.rdropWhile p := by
  rw [List.rdropWhile, List.reverse_append, List.dropWhile_append_of_pos]
  · rfl
  · exact fun y hy => h y (List.mem_reverse.mp hy)

/-- What a text ends in is looked for behind an element that stays. -/
theorem rdropWhile_append_cons {p : α → Bool} {y : α} (hy : p y = false) (s t : List α) :
    (s ++ y :: t).rdropWhile p = s ++ y :: t.rdropWhile p := by
  induction t using List.reverseRecOn with
  | nil => rw [List.rdropWhile_concat_neg _ _ _ (by simp [hy]), List.rdropWhile_nil]
  | append_singleton t z ih =>
      rw [← List.cons_append, ← List.append_assoc]
      by_cases hz : p z = true
      · rw [List.rdropWhile_concat_pos _ _ _ hz, List.rdropWhile_concat_pos _ _ _ hz, ih]
      · rw [List.rdropWhile_concat_neg _ _ _ hz, List.rdropWhile_concat_neg _ _ _ hz,
          List.append_assoc, List.cons_append]

/-- **Two texts one after the other**: the tokens of the first one that a delimiter ends, and
those of its open end with the second one. -/
theorem tokens_append (d : α → Bool) (s t : List α) :
    tokens d (s ++ t) = tokens d (s.rdropWhile fun y => !d y) ++
      tokens d ((s.rtakeWhile fun y => !d y) ++ t) := by
  have hsplit := List.rdropWhile_append_rtakeWhile (p := fun y => !d y) (l := s)
  set closed := s.rdropWhile fun y => !d y with hclosed
  conv_lhs => rw [← hsplit, List.append_assoc]
  rcases List.eq_nil_or_concat closed with h | ⟨front, x, h⟩
  · rw [h, List.nil_append, tokens_nil, List.nil_append]
  · have hx : d x = true := by
      have hlast := List.rdropWhile_last_not (fun y => !d y) s (by rw [← hclosed, h]; simp)
      simpa [← hclosed, h] using hlast
    rw [h, List.concat_eq_append, List.append_assoc, List.singleton_append,
      tokens_append_cons hx, tokens_append_cons hx front [], tokens_nil, List.append_nil]

/-- The tokens together are the text without its delimiters. -/
theorem flatten_tokens (d : α → Bool) (s : List α) :
    (tokens d s).flatten = s.filter fun y => !d y := by
  rw [tokens, List.flatten_filter_not_isEmpty]
  induction s with
  | nil => rfl
  | cons x s ih =>
      obtain ⟨piece, pieces, hsplit⟩ := List.exists_cons_of_ne_nil (List.splitOnP_ne_nil d s)
      rw [List.splitOnP_cons_eq_if_modifyHead]
      rw [hsplit] at ih ⊢
      cases hx : d x with
      | true => simpa [hx] using ih
      | false =>
          rw [List.flatten_cons] at ih
          simp [hx, ih]

theorem length_le_of_mem_tokens {d : α → Bool} {s t : List α} (h : t ∈ tokens d s) :
    t.length ≤ s.length :=
  calc t.length ≤ (tokens d s).flatten.length := (List.sublist_flatten_of_mem h).length_le
    _ = (s.filter fun y => !d y).length := by rw [flatten_tokens]
    _ ≤ s.length := List.length_filter_le _ s

/-- Every token is a non-empty delimiter-free piece of the text. -/
theorem of_mem_tokens {d : α → Bool} {s t : List α} (h : t ∈ tokens d s) :
    t ≠ [] ∧ (∀ y ∈ t, d y = false) ∧ t ⊆ s := by
  have hpiece : ∀ (s : List α), ∀ t ∈ s.splitOnP d, (∀ y ∈ t, d y = false) ∧ t ⊆ s := by
    intro s
    induction s with
    | nil => simp
    | cons x s ih =>
        intro t ht
        rw [List.splitOnP_cons_eq_if_modifyHead] at ht
        by_cases hx : d x
        · rw [if_pos hx, List.mem_cons] at ht
          rcases ht with rfl | ht
          · simp
          · exact ⟨(ih t ht).1, List.subset_cons_of_subset x (ih t ht).2⟩
        · rw [if_neg hx] at ht
          obtain ⟨hd, tl, hsp⟩ := List.exists_cons_of_ne_nil (List.splitOnP_ne_nil d s)
          rw [hsp, List.modifyHead_cons, List.mem_cons] at ht
          rw [hsp] at ih
          rcases ht with rfl | ht
          · have := ih hd List.mem_cons_self
            refine ⟨?_, List.cons_subset_cons x this.2⟩
            intro y hy
            rcases List.mem_cons.mp hy with rfl | hy
            · simpa using hx
            · exact this.1 y hy
          · have := ih t (List.mem_cons_of_mem _ ht)
            exact ⟨this.1, List.subset_cons_of_subset x this.2⟩
  rw [tokens, List.mem_filter] at h
  exact ⟨by simpa using h.2, hpiece s t h.1⟩

/-- Joining non-empty delimiter-free pieces and cutting the text again is the identity. Induction
along the pieces. -/
theorem tokens_intercalate_of_delim {d : α → Bool} {c : α} (hc : d c) {ls : List (List α)}
    (hne : ∀ l ∈ ls, l ≠ []) (hfree : ∀ l ∈ ls, ∀ y ∈ l, d y = false) :
    tokens d ([c].intercalate ls) = ls := by
  induction ls with
  | nil => simp
  | cons l ls ih =>
      have hl := hne l List.mem_cons_self
      have hlfree := hfree l List.mem_cons_self
      cases ls with
      | nil => simpa using tokens_of_free hl hlfree
      | cons l' ls =>
          have hrest := ih (fun m hm => hne m (List.mem_cons_of_mem _ hm))
            fun m hm => hfree m (List.mem_cons_of_mem _ hm)
          have hjoin : [c].intercalate (l :: l' :: ls) = l ++ c :: [c].intercalate (l' :: ls) := by
            simp [List.intercalate]
          rw [hjoin, tokens_append_cons_of_free hl hlfree hc, hrest]

/-- Two texts cut at their first `q` agree up to it when one starts with the other. -/
theorem append_cons_starts_iff {q : α} {p k : List α} (hp : q ∉ p) (hk : q ∉ k)
    {pat rest : List α} : p ++ q :: pat <+: k ++ q :: rest ↔ p = k ∧ pat <+: rest := by
  induction p generalizing k with
  | nil =>
      cases k with
      | nil => simp
      | cons x k =>
          simp only [List.mem_cons, not_or] at hk
          simp [hk.1]
  | cons y p ih =>
      simp only [List.mem_cons, not_or] at hp
      cases k with
      | nil => simp [Ne.symm hp.1]
      | cons x k =>
          simp only [List.mem_cons, not_or] at hk
          simp [ih hp.2 hk.2, and_assoc]

/-- What a text without `q` starts with up to a `q`. -/
theorem prefix_append_cons_iff {q : α} {p v : List α} (hp : q ∉ p) {rest : List α} :
    p <+: v ++ q :: rest ↔ p <+: v := by
  induction p generalizing v with
  | nil => simp
  | cons y p ih =>
      simp only [List.mem_cons, not_or] at hp
      cases v with
      | nil => simp [Ne.symm hp.1]
      | cons x v => simp [ih hp.2]

variable [DecidableEq α]

/-! ### `strchr` -/

/-- The text before the first `c` and the text after it; `none` when `c` is absent. -/
def cutAt (c : α) : List α → Option (List α × List α)
  | [] => none
  | x :: xs => if x = c then some ([], xs) else (cutAt c xs).map fun r => (x :: r.1, r.2)

theorem cutAt_append_cons {c : α} {k : List α} (hk : c ∉ k) (v : List α) :
    cutAt c (k ++ c :: v) = some (k, v) := by
  induction k with
  | nil => simp [cutAt]
  | cons x k ih =>
      simp only [List.mem_cons, not_or] at hk
      simp [cutAt, Ne.symm hk.1, ih hk.2]

theorem cutAt_eq_none_iff {c : α} {s : List α} : cutAt c s = none ↔ c ∉ s := by
  induction s with
  | nil => simp [cutAt]
  | cons x s ih =>
      by_cases hx : x = c
      · simp [cutAt, hx]
      · simp [cutAt, hx, ih, Ne.symm hx]

theorem cutAt_eq_some_iff {c : α} {s k v : List α} :
    cutAt c s = some (k, v) ↔ s = k ++ c :: v ∧ c ∉ k := by
  constructor
  · intro h
    induction s generalizing k with
    | nil => simp [cutAt] at h
    | cons x s ih =>
        by_cases hx : x = c
        · simp only [cutAt, hx, if_true, Option.some.injEq, Prod.mk.injEq] at h
          obtain ⟨rfl, rfl⟩ := h
          simp [hx]
        · simp only [cutAt, hx, if_false, Option.map_eq_some_iff, Prod.mk.injEq] at h
          obtain ⟨⟨k', v'⟩, hr, rfl, rfl⟩ := h
          obtain ⟨rfl, hk'⟩ := ih hr
          exact ⟨rfl, by simp [Ne.symm hx, hk']⟩
  · rintro ⟨rfl, hk⟩
    exact cutAt_append_cons hk v

/-- What is left from the first `c` on. -/
theorem dropWhile_ne_eq (c : α) (s : List α) :
    s.dropWhile (· ≠ c) = [] ∨ ∃ rest, s.dropWhile (· ≠ c) = c :: rest := by
  induction s with
  | nil => exact Or.inl rfl
  | cons x s ih =>
      by_cases hx : x = c
      · exact Or.inr ⟨s, by simp [hx]⟩
      · simpa [hx] using ih

/-! ### `strstr` -/

/-- The suffix of `s` that starts at the first occurrence of `pat`. -/
def strstr (pat : List α) : List α → Option (List α)
  | [] => if pat = [] then some [] else none
  | x :: xs => if pat <+: x :: xs then some (x :: xs) else strstr pat xs

theorem strstr_of_starts {pat s : List α} (h : pat <+: s) : strstr pat s = some s := by
  cases s with
  | nil => simp [strstr, List.prefix_nil.mp h]
  | cons x s => simp [strstr, h]

theorem strstr_cons_of_not_starts {pat s : List α} {x : α} (h : ¬ pat <+: x :: s) :
    strstr pat (x :: s) = strstr pat s := by
  simp [strstr, h]

/-- **`strstr` finds the first occurrence**: the suffix it returns starts with `pat`, and
`pat` occurs nowhere earlier. -/
theorem strstr_eq_some_iff {pat s t : List α} :
    strstr pat s = some t ↔ ∃ pre post, FirstOccurrence pat s pre post ∧ t = pat ++ post := by
  constructor
  · intro h
    induction s with
    | nil =>
        by_cases hp : pat = []
        · simp only [strstr, hp, if_true, Option.some.injEq] at h
          exact ⟨[], [], ⟨by simp [hp], by simp⟩, by simp [hp, ← h]⟩
        · simp [strstr, hp] at h
    | cons x s ih =>
        by_cases hp : pat <+: x :: s
        · rw [strstr_of_starts hp, Option.some.injEq] at h
          obtain ⟨post, hpost⟩ := hp
          exact ⟨[], post, ⟨by simp [hpost], by simp⟩, by rw [hpost, ← h]⟩
        · rw [strstr_cons_of_not_starts hp] at h
          obtain ⟨pre, post, hfirst, ht⟩ := ih h
          exact ⟨x :: pre, post, hfirst.cons hp, ht⟩
  · rintro ⟨pre, post, ⟨hs, hmin⟩, rfl⟩
    induction pre generalizing s with
    | nil =>
        subst hs
        exact strstr_of_starts ⟨post, rfl⟩
    | cons x pre ih =>
        subst hs
        rw [List.cons_append, List.cons_append, strstr_cons_of_not_starts]
        · refine ih rfl ?_
          intro pre' post' heq
          have := hmin (x :: pre') post' (by simp only [List.cons_append, heq])
          simpa using this
        · rintro ⟨post', hpre⟩
          have := hmin [] post' (by simpa using hpre.symm)
          simp at this

/-- A text without the first element of the pattern is skipped. -/
theorem strstr_append_of_not_mem {q : α} {pat k : List α} (hk : q ∉ k) (s : List α) :
    strstr (q :: pat) (k ++ s) = strstr (q :: pat) s := by
  induction k with
  | nil => rfl
  | cons x k ih =>
      simp only [List.mem_cons, not_or] at hk
      rw [List.cons_append, strstr_cons_of_not_starts, ih hk.2]
      rw [List.cons_prefix_cons]
      exact fun hx => hk.1 hx.1

/-- So is one occurrence of that element that does not go on like the pattern. -/
theorem strstr_append_cons {q : α} {pat k rest : List α} (hk : q ∉ k)
    (h : ¬ pat <+: rest) : strstr (q :: pat) (k ++ q :: rest) = strstr (q :: pat) rest := by
  rw [strstr_append_of_not_mem hk]
  exact strstr_cons_of_not_starts (by simpa using h)

theorem FirstOccurrence.strstr_eq {pat s pre post : List α}
    (h : FirstOccurrence pat s pre post) : strstr pat s = some (pat ++ post) :=
  strstr_eq_some_iff.mpr ⟨pre, post, h, rfl⟩

theorem strstr_eq_none_iff {pat s : List α} : strstr pat s = none ↔ ¬ pat <:+: s := by
  induction s with
  | nil =>
      by_cases hp : pat = [] <;> simp [strstr, hp]
  | cons x s ih =>
      rw [List.infix_cons_iff, not_or]
      by_cases hp : pat <+: x :: s
      · simp [strstr, hp]
      · simp [strstr, hp, ih]

/-- What occurs in a text has a first occurrence. -/
theorem exists_firstOccurrence {pat s : List α} (h : pat <:+: s) :
    ∃ pre post, FirstOccurrence pat s pre post := by
  cases hfound : strstr pat s with
  | none => exact absurd h (strstr_eq_none_iff.mp hfound)
  | some found =>
      obtain ⟨pre, post, hfirst, -⟩ := strstr_eq_some_iff.mp hfound
      exact ⟨pre, post, hfirst⟩

/-- What is found in a text is found in a longer one. -/
theorem strstr_append {pat s t : List α} (h : strstr pat s = some t) (u : List α) :
    strstr pat (s ++ u) = some (t ++ u) := by
  obtain ⟨pre, post, hfirst, rfl⟩ := strstr_eq_some_iff.mp h
  rw [(hfirst.append_right u).strstr_eq, List.append_assoc]

/-- A longer pattern is found no earlier than its start. -/
theorem strstr_append_pat {pat s t : List α} (h : strstr pat s = some t) (more : List α) :
    strstr (pat ++ more) s = strstr (pat ++ more) t := by
  induction s with
  | nil =>
      rw [strstr] at h
      split at h
      · rw [Option.some.inj h]
      · simp at h
  | cons x s ih =>
      by_cases hp : pat <+: x :: s
      · rw [strstr_of_starts hp] at h
        rw [Option.some.inj h]
      · rw [strstr_cons_of_not_starts hp] at h
        rw [strstr_cons_of_not_starts fun hmore => hp ((List.prefix_append _ _).trans hmore), ih h]

/-- The text before the first `pat` and the text after it; `none` when `pat` does not occur. -/
def cutAtStr (pat s : List α) : Option (List α × List α) :=
  (strstr pat s).map fun found => (s.take (s.length - found.length), found.drop pat.length)

theorem cutAtStr_eq_none_iff {pat s : List α} : cutAtStr pat s = none ↔ strstr pat s = none := by
  rw [cutAtStr, Option.map_eq_none_iff]

theorem firstOccurrence_of_cutAtStr {pat s pre post : List α}
    (h : cutAtStr pat s = some (pre, post)) : FirstOccurrence pat s pre post := by
  obtain ⟨found, hfound, heq⟩ := Option.map_eq_some_iff.mp h
  obtain ⟨before, after, hfirst, rfl⟩ := strstr_eq_some_iff.mp hfound
  have hpre : s.take (s.length - (pat ++ after).length) = before := by
    rw [hfirst.1]
    simp
  rw [hpre, List.drop_left, Prod.mk.injEq] at heq
  obtain ⟨rfl, rfl⟩ := heq
  exact hfirst

theorem cutAtStr_eq_some {pat s pre post : List α} (h : cutAtStr pat s = some (pre, post)) :
    s = pre ++ (pat ++ post) ∧ strstr pat s = some (pat ++ post) := by
  have hfirst := firstOccurrence_of_cutAtStr h
  exact ⟨by rw [hfirst.1, List.append_assoc], hfirst.strstr_eq⟩

theorem FirstOccurrence.cutAtStr_eq {pat s pre post : List α}
    (h : FirstOccurrence pat s pre post) : cutAtStr pat s = some (pre, post) := by
  have hlen : s.length - (pat ++ post).length = pre.length := by
    rw [h.1]
    simp only [List.length_append]
    omega
  have htake : s.take pre.length = pre := by
    rw [h.1, List.append_assoc, List.take_left]
  rw [cutAtStr, h.strstr_eq, Option.map_some, hlen, htake, List.drop_left]

/-- The pieces of a text cut at each `a` that a `b` follows. -/
def splitPair (a b : α) : List α → List (List α)
  | [] => [[]]
  | [x] => [[x]]
  | x :: y :: s =>
      if x = a ∧ y = b then [] :: splitPair a b s
      else (splitPair a b (y :: s)).modifyHead (x :: ·)

/-- **The pieces are those a loop over `strstr` goes through.** -/
theorem splitPair_eq_cutAtStr (a b : α) (s : List α) :
    splitPair a b s = match cutAtStr [a, b] s with
      | none => [s]
      | some (piece, rest) => piece :: splitPair a b rest := by
  induction s using splitPair.induct a b with
  | case1 => simp [splitPair, cutAtStr, strstr]
  | case2 x => simp [splitPair, cutAtStr, strstr]
  | case3 x y s hxy ih =>
      obtain ⟨rfl, rfl⟩ := hxy
      simp [splitPair, cutAtStr, strstr]
  | case4 x y s hxy ih =>
      have hstarts : ¬ [a, b] <+: x :: y :: s := by
        rw [List.cons_prefix_cons, List.cons_prefix_cons]
        exact fun h => hxy ⟨h.1.symm, h.2.1.symm⟩
      rw [splitPair, if_neg hxy, ih]
      cases hcut : cutAtStr [a, b] (y :: s) with
      | none =>
          have hnone : cutAtStr [a, b] (x :: y :: s) = none := by
            rw [cutAtStr_eq_none_iff] at hcut ⊢
            rw [strstr_cons_of_not_starts hstarts, hcut]
          rw [hnone]
          rfl
      | some cut =>
          obtain ⟨piece, rest⟩ := cut
          obtain ⟨hs, hfound⟩ := cutAtStr_eq_some hcut
          have hsome : cutAtStr [a, b] (x :: y :: s) = some (x :: piece, rest) := by
            have hlen : (x :: y :: s).length - ([a, b] ++ rest).length = (x :: piece).length := by
              rw [hs]
              simp
              omega
            rw [cutAtStr, strstr_cons_of_not_starts hstarts, hfound, Option.map_some, hlen, hs,
              ← List.cons_append, List.take_left, List.drop_left]
          rw [hsome]
          rfl

/-! ### `sscanf` -/

/-- What `sscanf(s, "%<width>[^stop]", buf)` assigns: the text up to the first `stop`, cut to
`width`; nothing is assigned when it is empty. -/
def scanSet (width : ℕ) (stop : α) (s : List α) : Option (List α) :=
  match (s.takeWhile (· ≠ stop)).take width with
  | [] => none
  | x :: v => some (x :: v)

theorem scanSet_eq_some {width : ℕ} {stop : α} {s v : List α} (hv : v ≠ [])
    (h : (s.takeWhile (· ≠ stop)).take width = v) : scanSet width stop s = some v := by
  obtain ⟨x, v, rfl⟩ := List.exists_cons_of_ne_nil hv
  rw [scanSet, h]

/-- What is scanned is the start of the text. -/
theorem prefix_of_scanSet {width : ℕ} {stop : α} {s v : List α}
    (h : scanSet width stop s = some v) : v <+: s := by
  have hv : (s.takeWhile (· ≠ stop)).take width = v := by
    rw [scanSet] at h
    split at h
    · simp at h
    · rename_i hscan
      rw [hscan, Option.some.inj h]
  exact hv ▸ (List.take_prefix _ _).trans (List.takeWhile_prefix _)

/-- A short text is scanned up to the stop that follows it. -/
theorem scanSet_append_cons {width : ℕ} {stop : α} {v : List α} (hv : v ≠ [])
    (hlen : v.length ≤ width) (hfree : stop ∉ v) (rest : List α) :
    scanSet width stop (v ++ stop :: rest) = some v := by
  refine scanSet_eq_some hv ?_
  rw [takeWhile_ne_append hfree]
  simp [hlen]

/-! ### Joining and cutting again -/

/-- Joining non-empty separator-free pieces and cutting the text again is the identity. -/
theorem tokens_intercalate {c : α} {ls : List (List α)} (hne : ∀ l ∈ ls, l ≠ [])
    (hfree : ∀ l ∈ ls, c ∉ l) : tokens (· == c) ([c].intercalate ls) = ls :=
  tokens_intercalate_of_delim (by simp) hne fun l hl y hy => by
    simpa using ne_of_mem_of_not_mem hy (hfree l hl)

end Generic

end CLib

import CBank.CLib.Lines
import CBank.CLib.Memory
import CBank.Middlewares

/-!
# The Environment File

`secret/manager.c` with `read_line` and `ltrim` of `utils.c`: how `load_env` reads the secrets from
a file, and how `get_env` finds one. Two blocks grow on the way. The buffer of a line is doubled
when it is full. The array of secrets grows by 20 slots when all but the last one are taken; its
size is an `int`, and past the largest one the program stops being defined.

A file is given by its content. A write outside the block it is meant for stops the program being
defined (`storeAt`), so where a result is given every write was inside.

## Main results

* `readLine_eq`: a call of `read_line` reads one line of the file, of any length.
* `loadLines_eq_some`, `loadLines_eq_none`: what the loop of `load_env` leaves in the array.
* `Secrets.Holds.getEnv_eq`: `get_env` searches what is stored.
* `loadsExactly_iff`: when every name has the value its first line gives it.
-/

namespace CBank

open CLib

/-! ### Reading a line -/

/-- `ltrim`. -/
def ltrim (c : Bytes) : Bytes := c.dropWhile (· = ch ' ')

/-- The loop of `read_line` on what is left of the file, with its variables `size`, `buf` and
`len`: the buffer with the line, and what is left then, or NULL. The outer `none` is a write outside
the buffer. -/
def readLineLoop (A : Allocator) (size : ℕ) (buf : Bytes) (len : ℕ) :
    Bytes → Option (Option (Bytes × Bytes))
  | [] => if len = 0 then some none else (storeAt buf len 0).map fun buf => some (buf, [])
  | c :: file =>
      if c = newline then (storeAt buf len 0).map fun buf => some (buf, file)
      else do
        let buf ← storeAt buf len c
        if len + 1 ≥ size then
          match A.realloc buf (size * 2) with
          | none => some none
          | some buf => readLineLoop A (size * 2) buf (len + 1) file
        else readLineLoop A size buf (len + 1) file

/-- `read_line`. -/
def readLine (A : Allocator) (file : Bytes) : Option (Option (Bytes × Bytes)) :=
  match A.alloc 128 with
  | none => some none
  | some buf => readLineLoop A 128 buf 0 file

/-- A line takes something of the file. Induction along the file. -/
theorem length_of_readLineLoop {A : Allocator} {size len : ℕ} {buf file line rest : Bytes}
    (h : readLineLoop A size buf len file = some (some (line, rest))) :
    rest.length ≤ file.length ∧ (len = 0 → rest.length < file.length) := by
  induction file generalizing size buf len with
  | nil =>
      rw [readLineLoop] at h
      split at h
      · simp at h
      · rename_i hlen
        obtain ⟨buf', -, h⟩ := Option.map_eq_some_iff.mp h
        simp only [Option.some.injEq, Prod.mk.injEq] at h
        rw [← h.2]
        exact ⟨Nat.le_refl _, fun h0 => absurd h0 hlen⟩
  | cons c file ih =>
      rw [List.length_cons]
      rw [readLineLoop] at h
      split at h
      · obtain ⟨buf', -, h⟩ := Option.map_eq_some_iff.mp h
        simp only [Option.some.injEq, Prod.mk.injEq] at h
        rw [← h.2]
        omega
      · obtain ⟨buf', -, h⟩ := Option.bind_eq_some_iff.mp h
        split at h
        · split at h
          · simp at h
          · have := (ih h).1
            omega
        · have := (ih h).1
          omega

theorem length_lt_of_readLine {A : Allocator} {file line rest : Bytes}
    (h : readLine A file = some (some (line, rest))) : rest.length < file.length := by
  rw [readLine] at h
  split at h
  · simp at h
  · exact (length_of_readLineLoop h).2 rfl

/-! ### The secrets -/

/-- `Secret`; `none` is NULL. -/
structure Secret where
  name : Option Bytes
  value : Option Bytes
  deriving DecidableEq

/-- `sizeof(Secret)`: two pointers. -/
abbrev sizeofSecret : ℕ := 16

/-- `Secrets`. The array has a slot `none` where nothing was ever written. -/
structure Secrets where
  secrets : Option (List (Option Secret))
  secretsCount : ℕ
  deriving DecidableEq

/-- `g_secrets` when the program starts. -/
def Secrets.unloaded : Secrets := ⟨none, 0⟩

/-- `strdup`. -/
def strdup (A : Allocator) (s : Bytes) : Option Bytes :=
  (A.alloc (s.length + 1)).map fun _ => s

/-- The array while `load_env` fills it, with its variables `secret_alloc_size` and
`secret_trigger_realloc`. -/
structure Loading where
  secrets : List (Option Secret)
  secretsCount : ℕ
  secretAllocSize : ℕ
  secretTriggerRealloc : ℕ

/-- The array is allocated, all zero. -/
def Loading.start : Loading := ⟨List.replicate 20 (some ⟨none, none⟩), 0, 20, 19⟩

/-- The array grows when all but its last slot are taken. The outer `none` is `secret_alloc_size`
past the largest `int`, `error` the return from `load_env` when `realloc` fails. -/
def growSecrets (A : Allocator) (l : Loading) : Option (Except Secrets Loading) :=
  if l.secretsCount = l.secretTriggerRealloc then
    let size := l.secretAllocSize + 20
    if intMax < size then none
    else if (A.alloc (sizeofSecret * size)).isSome then
      some (.ok { l with
        secrets := l.secrets ++ List.replicate (size - l.secrets.length) none
        secretAllocSize := size
        secretTriggerRealloc := size - 1 })
    else some (.error ⟨some l.secrets, 0⟩)
  else some (.ok l)

/-- The name and the value `load_env` takes from a line. -/
def secretOf (line : Bytes) : Option (Bytes × Bytes) :=
  match cutAt (ch '=') line with
  | none => none
  | some (left, right) =>
      if (ltrim left).length > 0 ∧ (ltrim right).length > 0 then some (ltrim left, ltrim right)
      else none

/-- The body of the loop of `load_env`. -/
def loadLine (A : Allocator) (l : Loading) (line : Bytes) : Option (Except Secrets Loading) :=
  match secretOf line with
  | none => some (.ok l)
  | some (name, value) => do
      match ← growSecrets A l with
      | .error s => some (.error s)
      | .ok l =>
          let secrets ← storeAt l.secrets l.secretsCount (some ⟨strdup A name, strdup A value⟩)
          some (.ok { l with secrets := secrets, secretsCount := l.secretsCount + 1 })

/-- The loop of `load_env`; `error` is its return from inside the loop. -/
def loadLines (A : Allocator) (l : Loading) (file : Bytes) : Option (Except Secrets Loading) :=
  match h : readLine A file with
  | none => none
  | some none => some (.ok l)
  | some (some (line, rest)) =>
      match loadLine A l (cstr line) with
      | none => none
      | some (.error s) => some (.error s)
      | some (.ok l) =>
          have := length_lt_of_readLine h
          loadLines A l rest
termination_by file.length

/-- What `load_env` prints of a secret: its name, and a star for every byte of its value. -/
def hiddenSecret (A : Allocator) (secret : Secret) : Option (Bytes × Bytes) := do
  let value ← secret.value
  let _ ← A.alloc (value.length + 1)
  let name ← secret.name
  some (name, List.replicate value.length (ch '*'))

/-- `load_env` on a file that is there or not: the secrets, and what is printed of them. -/
def loadEnv (A : Allocator) (file : Option Bytes) (g : Secrets) :
    Option (Secrets × List (Bytes × Bytes)) :=
  if g.secrets.isSome then some (g, [])
  else match file with
    | none => some (g, [])
    | some content =>
        if (A.alloc (20 * sizeofSecret)).isSome then do
          match ← loadLines A .start content with
          | .error s => some (s, [])
          | .ok l =>
              let printed ← (List.range l.secretsCount).mapM fun i =>
                l.secrets[i]?.join.bind (hiddenSecret A)
              some (⟨some l.secrets, l.secretsCount⟩, printed)
        else some (g, [])

/-- `get_env`; the outer `none` is a slot that is not there or was never written. -/
def Secrets.getEnv (g : Secrets) (name : Bytes) : Option (Option Bytes) :=
  match g.secrets with
  | none => some none
  | some slots => (searchFrom (fun i => do
      let secret ← slots[i]?.join
      let secretName ← secret.name
      some (if name = secretName then some secret.value else none)) 0 g.secretsCount).map
        Option.join

/-! ### What a line of the file means -/

/-- A line gives `name` the value `value`. -/
def GivesValue (name value line : Bytes) : Prop :=
  ∃ left right, line = left ++ ch '=' :: right ∧ ch '=' ∉ left ∧
    ltrim left = name ∧ name ≠ [] ∧ ltrim right = value ∧ value ≠ []

/-- The value of a name: the one the first line that gives it any gives it. -/
def FirstValue (lines : List Bytes) (name : Bytes) : Option Bytes → Prop
  | none => ∀ line ∈ lines, ∀ value, ¬ GivesValue name value line
  | some value => ∃ before line after, lines = before ++ line :: after ∧
      GivesValue name value line ∧ ∀ line ∈ before, ∀ value, ¬ GivesValue name value line

theorem secretOf_eq_some_iff {line name value : Bytes} :
    secretOf line = some (name, value) ↔ GivesValue name value line := by
  constructor
  · intro h
    rw [secretOf] at h
    split at h
    · simp at h
    · rename_i left right hcut
      obtain ⟨hline, hleft⟩ := cutAt_eq_some_iff.mp hcut
      obtain ⟨⟨hname, hvalue⟩, h⟩ := Option.ite_none_right_eq_some.mp h
      simp only [Option.some.injEq, Prod.mk.injEq] at h
      obtain ⟨rfl, rfl⟩ := h
      exact ⟨left, right, hline, hleft, rfl, List.ne_nil_of_length_pos hname, rfl,
        List.ne_nil_of_length_pos hvalue⟩
  · rintro ⟨left, right, rfl, hleft, rfl, hname, rfl, hvalue⟩
    rw [secretOf, cutAt_append_cons hleft]
    exact if_pos ⟨List.length_pos_of_ne_nil hname, List.length_pos_of_ne_nil hvalue⟩

/-- A line that does not give the name a value may stand in front. -/
theorem FirstValue.cons {line name : Bytes} {lines : List Bytes} {result : Option Bytes}
    (hline : ∀ value, ¬ GivesValue name value line) (h : FirstValue lines name result) :
    FirstValue (line :: lines) name result := by
  cases result with
  | none =>
      intro l hl
      rcases List.mem_cons.mp hl with rfl | hl
      · exact hline
      · exact h l hl
  | some value =>
      obtain ⟨before, given, after, rfl, hgiven, hbefore⟩ := h
      refine ⟨line :: before, given, after, rfl, hgiven, ?_⟩
      intro l hl
      rcases List.mem_cons.mp hl with rfl | hl
      · exact hline
      · exact hbefore l hl

/-- The first secret of a name among all is the one its first line gives. -/
theorem firstValue_find? (lines : List Bytes) (name : Bytes) :
    FirstValue lines name
      (((lines.filterMap secretOf).find? fun secret => name = secret.1).map Prod.snd) := by
  induction lines with
  | nil => simp [FirstValue]
  | cons line lines ih =>
      cases hsecret : secretOf line with
      | none =>
          rw [List.filterMap_cons_none hsecret]
          refine ih.cons fun value hgives => ?_
          rw [secretOf_eq_some_iff.mpr hgives] at hsecret
          simp at hsecret
      | some secret =>
          obtain ⟨n, v⟩ := secret
          rw [List.filterMap_cons_some hsecret]
          by_cases hn : name = n
          · subst hn
            rw [List.find?_cons_of_pos (by simp)]
            exact ⟨[], line, lines, rfl, secretOf_eq_some_iff.mp hsecret, by simp⟩
          · rw [List.find?_cons_of_neg (by simpa using hn)]
            refine ih.cons fun value hgives => hn ?_
            rw [secretOf_eq_some_iff.mpr hgives] at hsecret
            exact congrArg Prod.fst (Option.some.inj hsecret)

/-! ### Reading the lines -/

/-- The loop of `read_line` with `done` in the buffer. Induction along the line. -/
theorem readLineLoop_eq {A : Allocator} {n : ℕ} (hA : A.Provides n) {line tail : Bytes}
    (hline : newline ∉ line) {done buf : Bytes} {size : ℕ}
    (htail : tail = [] ∧ done ++ line ≠ [] ∨ tail.head? = some newline)
    (hbuf : buf.length = size) (hdone : done <+: buf) (hroom : done.length < size)
    (hn : 2 * (done.length + line.length) ≤ n) :
    ∃ buf', readLineLoop A size buf done.length (line ++ tail) = some (some (buf', tail.tail)) ∧
      done ++ line ++ [0] <+: buf' := by
  induction line generalizing done buf size with
  | nil =>
      obtain ⟨buf', hstore, -, hstarts⟩ := storeAt_append hdone (by omega) (0 : UInt8)
      refine ⟨buf', ?_, by simpa using hstarts⟩
      rcases htail with ⟨rfl, hne⟩ | hhead
      · have hlen : done.length ≠ 0 := by simpa using hne
        rw [List.append_nil, readLineLoop, if_neg hlen, hstore]
        rfl
      · obtain ⟨rest, rfl⟩ : ∃ rest, tail = newline :: rest := by
          obtain ⟨rest, hrest⟩ := List.head?_eq_some_iff.mp hhead
          exact ⟨rest, hrest⟩
        rw [List.nil_append, readLineLoop, if_pos rfl, hstore]
        rfl
  | cons c line ih =>
      have hc : c ≠ newline := fun h => hline (h ▸ List.mem_cons_self)
      rw [List.length_cons] at hn
      obtain ⟨buf', hstore, hlen, hstarts⟩ := storeAt_append hdone (by omega) c
      have hdone' : (done ++ [c]).length = done.length + 1 := List.length_append
      have hmore : ∀ {buf'' : Bytes} {size' : ℕ}, buf''.length = size' → done.length + 1 < size' →
          done ++ [c] <+: buf'' →
          ∃ buf', readLineLoop A size' buf'' (done.length + 1) (line ++ tail) =
            some (some (buf', tail.tail)) ∧ done ++ c :: line ++ [0] <+: buf' := by
        intro buf'' size' hbuf'' hroom' hstarts'
        have hstep : ∃ buf', readLineLoop A size' buf'' (done ++ [c]).length (line ++ tail) =
            some (some (buf', tail.tail)) ∧ done ++ [c] ++ line ++ [0] <+: buf' :=
          ih (fun h => hline (List.mem_cons_of_mem c h)) (by simpa using htail) hbuf'' hstarts'
            (by omega) (by omega)
        simpa [hdone'] using hstep
      rw [List.cons_append, readLineLoop, if_neg hc, hstore, Option.bind_eq_bind, Option.bind_some]
      by_cases hfull : done.length + 1 ≥ size
      · obtain ⟨grown, hrealloc, hgrown, hkept⟩ :=
          hA.realloc_eq_some (show size * 2 ≤ n by omega) (show buf'.length ≤ size * 2 by omega)
        rw [if_pos hfull, hrealloc]
        exact hmore hgrown (by omega) (hstarts.trans hkept)
      · rw [if_neg hfull]
        exact hmore (by omega) (by omega) hstarts

/-- **A call of `read_line` reads one line**, of any length, with or without a newline at its
end. -/
theorem readLine_eq {A : Allocator} {n : ℕ} (hA : A.Provides n) (h128 : 128 ≤ n) {file : Bytes}
    (hne : file ≠ []) (hfree : NulFree file) (hn : 2 * file.length ≤ n) :
    ∃ buf rest, readLine A file = some (some (buf, rest)) ∧
      textLines newline file = cstr buf :: textLines newline rest ∧
      (cstr buf).length ≤ file.length ∧ NulFree rest := by
  obtain ⟨line, tail, rfl, hline, htail, hlines⟩ := exists_first_line newline hne
  obtain ⟨block, hblock⟩ := Option.isSome_iff_exists.mp (hA 128 h128)
  rw [List.length_append] at hn
  have hstart : 2 * (([] : Bytes).length + line.length) ≤ n := by
    rw [List.length_nil]
    omega
  obtain ⟨buf, hread, rest, hstarts⟩ := readLineLoop_eq hA hline htail (A.length_alloc hblock)
    List.nil_prefix (by simp) hstart
  have hfreeLine : NulFree line := fun h => hfree (List.mem_append_left _ h)
  have hbuf : cstr buf = line := by
    rw [← hstarts, List.nil_append, List.append_assoc]
    exact cstr_append_nul hfreeLine rest
  refine ⟨buf, tail.tail, ?_, by rw [hlines, hbuf], ?_, ?_⟩
  · rw [readLine, hblock]
    exact hread
  · rw [hbuf, List.length_append]
    omega
  · exact fun h => hfree (List.mem_append_right _ (List.mem_of_mem_tail h))

/-! ### Filling the array -/

/-- As many secrets can be stored before `secret_alloc_size` would pass the largest `int`. -/
abbrev maxSecrets : ℕ := 2147483639

/-- The slot of a secret. -/
def slotOf (secret : Bytes × Bytes) : Option Secret := some ⟨some secret.1, some secret.2⟩

/-- The first slots hold `stored`, and the array has the size its variables say. -/
structure Loading.Holds (l : Loading) (stored : List (Bytes × Bytes)) : Prop where
  count : l.secretsCount = stored.length
  size : l.secretAllocSize = 20 * (stored.length / 20 + 1)
  trigger : l.secretTriggerRealloc = l.secretAllocSize - 1
  length : l.secrets.length = l.secretAllocSize
  slots : stored.map slotOf <+: l.secrets

theorem Loading.holds_start : Loading.start.Holds [] where
  count := rfl
  size := rfl
  trigger := rfl
  length := rfl
  slots := List.nil_prefix

/-- There is room for the next secret, after the array has grown if it must; and the size is that
for one more. -/
theorem growSecrets_eq {A : Allocator} {n : ℕ} (hA : A.Provides n) {l : Loading}
    {stored : List (Bytes × Bytes)} (hl : l.Holds stored) (hroom : stored.length < maxSecrets)
    (hn : sizeofSecret * (stored.length + 21) ≤ n) :
    ∃ l', growSecrets A l = some (.ok l') ∧ l'.secretsCount = stored.length ∧
      l'.secretAllocSize = 20 * ((stored.length + 1) / 20 + 1) ∧
      l'.secretTriggerRealloc = l'.secretAllocSize - 1 ∧
      l'.secrets.length = l'.secretAllocSize ∧ stored.map slotOf <+: l'.secrets := by
  have hcount := hl.count
  have hsize := hl.size
  have htrigger := hl.trigger
  have hlength := hl.length
  by_cases hgrow : l.secretsCount = l.secretTriggerRealloc
  · have hint : ¬ intMax < ((l.secretAllocSize + 20 : ℕ) : ℤ) := by
      simp only [intMax, maxSecrets] at hroom ⊢
      omega
    have halloc : (A.alloc (sizeofSecret * (l.secretAllocSize + 20))).isSome := by
      refine hA _ (le_trans ?_ hn)
      simp only [sizeofSecret]
      omega
    have hgrown : growSecrets A l = some (.ok
        { l with
          secrets := l.secrets ++ List.replicate (l.secretAllocSize + 20 - l.secrets.length) none
          secretAllocSize := l.secretAllocSize + 20
          secretTriggerRealloc := l.secretAllocSize + 20 - 1 }) := by
      simp only [growSecrets, if_pos hgrow, if_neg hint, if_pos halloc]
    refine ⟨_, hgrown, hcount, ?_, rfl, ?_, hl.slots.trans (List.prefix_append _ _)⟩
    · simp only
      omega
    · simp only [List.length_append, List.length_replicate]
      omega
  · refine ⟨l, if_neg hgrow, hcount, ?_, htrigger, hlength, hl.slots⟩
    omega

/-- The array of `maxSecrets` secrets does not grow. -/
theorem growSecrets_eq_none {A : Allocator} {l : Loading} {stored : List (Bytes × Bytes)}
    (hl : l.Holds stored) (hfull : stored.length = maxSecrets) : growSecrets A l = none := by
  have hcount := hl.count
  have hsize := hl.size
  have htrigger := hl.trigger
  simp only [maxSecrets] at hfull
  have hgrow : l.secretsCount = l.secretTriggerRealloc := by omega
  have hint : intMax < ((l.secretAllocSize + 20 : ℕ) : ℤ) := by
    simp only [intMax]
    omega
  rw [growSecrets, if_pos hgrow]
  exact if_pos hint

/-- What one line adds. -/
theorem loadLine_eq_some {A : Allocator} {n : ℕ} (hA : A.Provides n) {l : Loading}
    {stored : List (Bytes × Bytes)} {line : Bytes} (hl : l.Holds stored)
    (hroom : (stored ++ (secretOf line).toList).length ≤ maxSecrets)
    (hn : sizeofSecret * (stored.length + 21) ≤ n) (hline : line.length < n) :
    ∃ l', loadLine A l line = some (.ok l') ∧ l'.Holds (stored ++ (secretOf line).toList) := by
  cases hsecret : secretOf line with
  | none => exact ⟨l, by rw [loadLine, hsecret], by simpa using hl⟩
  | some secret =>
      obtain ⟨name, value⟩ := secret
      have hfits : stored.length < maxSecrets := by
        rw [hsecret, Option.toList_some, List.length_append, List.length_singleton] at hroom
        omega
      obtain ⟨l', hgrow, hcount, hsize, htrigger, hlength, hslots⟩ :=
        growSecrets_eq hA hl hfits hn
      have hdup : ∀ s : Bytes, s.length ≤ line.length → strdup A s = some s := by
        intro s hs
        obtain ⟨block, hblock⟩ := Option.isSome_iff_exists.mp (hA (s.length + 1) (by omega))
        rw [strdup, hblock]
        rfl
      obtain ⟨hname, hvalue⟩ : name.length ≤ line.length ∧ value.length ≤ line.length := by
        obtain ⟨left, right, rfl, -, rfl, -, rfl, -⟩ := secretOf_eq_some_iff.mp hsecret
        have hleft : (ltrim left).length ≤ left.length := List.length_dropWhile_le _ _
        have hright : (ltrim right).length ≤ right.length := List.length_dropWhile_le _ _
        rw [List.length_append, List.length_cons]
        omega
      have hlen : (stored.map slotOf).length = stored.length := List.length_map _
      obtain ⟨secrets, hstore, hkept, hstarts⟩ := storeAt_append hslots (by omega)
        (slotOf (name, value))
      refine ⟨⟨secrets, l'.secretsCount + 1, l'.secretAllocSize, l'.secretTriggerRealloc⟩, ?_, ?_⟩
      · rw [loadLine, hsecret]
        simp only [hgrow, Option.bind_eq_bind, Option.bind_some, hdup name hname,
          hdup value hvalue, hcount]
        rw [hlen] at hstore
        simp only [slotOf] at hstore
        rw [hstore]
        rfl
      · constructor
        · simp [hcount]
        · simpa using hsize
        · exact htrigger
        · exact hkept.trans hlength
        · simpa using hstarts

/-- A line that is one secret too many. -/
theorem loadLine_eq_none {A : Allocator} {l : Loading} {stored : List (Bytes × Bytes)}
    {line : Bytes} (hl : l.Holds stored) (hstored : stored.length ≤ maxSecrets)
    (hover : maxSecrets < (stored ++ (secretOf line).toList).length) :
    loadLine A l line = none := by
  cases hsecret : secretOf line with
  | none =>
      rw [hsecret, Option.toList_none, List.append_nil] at hover
      omega
  | some secret =>
      rw [hsecret, Option.toList_some, List.length_append, List.length_singleton] at hover
      rw [loadLine, hsecret]
      simp only [growSecrets_eq_none hl (by omega), Option.bind_eq_bind, Option.bind_none]

/-! ### The whole file -/

theorem loadLines_of_line {A : Allocator} {l : Loading} {file line rest : Bytes}
    (hread : readLine A file = some (some (line, rest))) :
    loadLines A l file = match loadLine A l (cstr line) with
      | none => none
      | some (.error s) => some (.error s)
      | some (.ok l) => loadLines A l rest := by
  rw [loadLines]
  split
  · simp_all
  · simp_all
  · rename_i line' rest' hread'
    obtain ⟨rfl, rfl⟩ : line' = line ∧ rest' = rest := by
      simpa using hread'.symm.trans hread
    rfl

theorem loadLines_nil {A : Allocator} (h128 : (A.alloc 128).isSome) (l : Loading) :
    loadLines A l [] = some (.ok l) := by
  obtain ⟨block, hblock⟩ := Option.isSome_iff_exists.mp h128
  have hread : readLine A [] = some none := by
    rw [readLine, hblock]
    rfl
  rw [loadLines]
  split <;> simp_all

theorem filterMap_secretOf_cons (line : Bytes) (lines : List Bytes) :
    (line :: lines).filterMap secretOf = (secretOf line).toList ++ lines.filterMap secretOf := by
  cases h : secretOf line with
  | none => rw [List.filterMap_cons_none h]; rfl
  | some secret => rw [List.filterMap_cons_some h]; rfl

section Run

variable {A : Allocator} {n m : ℕ} (hA : A.Provides n) (hn : sizeofSecret * (m + 20) ≤ n)

include hA hn

/-- One line of the file: its secret is stored, or was one too many. -/
theorem loadLines_step {file : Bytes} {l : Loading} {stored : List (Bytes × Bytes)}
    (hl : l.Holds stored) (hfree : NulFree file) (hm : stored.length + file.length ≤ m)
    (hstored : stored.length ≤ maxSecrets) (hne : file ≠ []) :
    ∃ line rest, textLines newline file = line :: textLines newline rest ∧
      rest.length < file.length ∧ NulFree rest ∧
      ((stored ++ (secretOf line).toList).length ≤ maxSecrets →
        ∃ l', l'.Holds (stored ++ (secretOf line).toList) ∧
          (stored ++ (secretOf line).toList).length + rest.length ≤ m ∧
          loadLines A l file = loadLines A l' rest) ∧
      (maxSecrets < (stored ++ (secretOf line).toList).length → loadLines A l file = none) := by
  simp only [sizeofSecret] at hn
  obtain ⟨buf, rest, hread, hlines, hbuf, hrest⟩ := readLine_eq hA (by omega) hne hfree (by omega)
  have hlt := length_lt_of_readLine hread
  refine ⟨cstr buf, rest, hlines, hlt, hrest, fun hfits => ?_, fun hover => ?_⟩
  · obtain ⟨l', hline, hl'⟩ := loadLine_eq_some hA hl hfits
      (by simp only [sizeofSecret]; omega) (by omega)
    refine ⟨l', hl', ?_, by rw [loadLines_of_line hread, hline]⟩
    have hone : (secretOf (cstr buf)).toList.length ≤ 1 := Option.length_toList_le
    rw [List.length_append]
    omega
  · rw [loadLines_of_line hread, loadLine_eq_none hl hstored hover]

/-- **What the loop leaves in the array**: the secrets of the lines, in order. Induction along the
lines of the file. -/
theorem loadLines_eq_some {file : Bytes} {l : Loading} {stored : List (Bytes × Bytes)}
    (hl : l.Holds stored) (hfree : NulFree file) (hm : stored.length + file.length ≤ m)
    (hroom : (stored ++ (textLines newline file).filterMap secretOf).length ≤ maxSecrets) :
    ∃ l', loadLines A l file = some (.ok l') ∧
      l'.Holds (stored ++ (textLines newline file).filterMap secretOf) := by
  induction hlen : file.length using Nat.strong_induction_on generalizing file l stored with
  | _ k ih =>
      rcases eq_or_ne file [] with rfl | hne
      · have h128 : (A.alloc 128).isSome := hA 128 (by simp only [sizeofSecret] at hn; omega)
        exact ⟨l, loadLines_nil h128 l, by simpa [textLines] using hl⟩
      · have hstored : stored.length ≤ maxSecrets := by
          rw [List.length_append] at hroom
          omega
        obtain ⟨line, rest, hlines, hlt, hrest, hstep, -⟩ :=
          loadLines_step hA hn hl hfree hm hstored hne
        rw [hlines, filterMap_secretOf_cons, ← List.append_assoc] at hroom ⊢
        obtain ⟨l₁, hl₁, hm₁, hload⟩ := hstep (by rw [List.length_append] at hroom; omega)
        rw [hload]
        exact ih rest.length (by omega) hl₁ hrest hm₁ hroom rfl

/-- **A file with more secrets than can be stored.** Induction along its lines. -/
theorem loadLines_eq_none {file : Bytes} {l : Loading} {stored : List (Bytes × Bytes)}
    (hl : l.Holds stored) (hfree : NulFree file) (hm : stored.length + file.length ≤ m)
    (hstored : stored.length ≤ maxSecrets)
    (hover : maxSecrets < (stored ++ (textLines newline file).filterMap secretOf).length) :
    loadLines A l file = none := by
  induction hlen : file.length using Nat.strong_induction_on generalizing file l stored with
  | _ k ih =>
      rcases eq_or_ne file [] with rfl | hne
      · have hnil : textLines newline ([] : Bytes) = [] := by simp [textLines]
        rw [hnil, List.filterMap_nil, List.append_nil] at hover
        omega
      · obtain ⟨line, rest, hlines, hlt, hrest, hstep, hlast⟩ :=
          loadLines_step hA hn hl hfree hm hstored hne
        rw [hlines, filterMap_secretOf_cons, ← List.append_assoc] at hover
        rcases Nat.lt_or_ge maxSecrets (stored ++ (secretOf line).toList).length with hlt' | hfits
        · exact hlast hlt'
        · obtain ⟨l₁, hl₁, hm₁, hload⟩ := hstep hfits
          rw [hload]
          exact ih rest.length (by omega) hl₁ hrest hm₁ hfits hover rfl

end Run

/-! ### What is found afterwards -/

/-- **`get_env` searches what is stored**, first to last. -/
theorem Loading.Holds.getEnv_eq {l : Loading} {stored : List (Bytes × Bytes)} (hl : l.Holds stored)
    (name : Bytes) : Secrets.getEnv ⟨some l.secrets, l.secretsCount⟩ name =
      some ((stored.find? fun secret => name = secret.1).map Prod.snd) := by
  simp only [Secrets.getEnv, hl.count]
  rw [searchFrom_eq (fun secret => if decide (name = secret.1) then some (some secret.2) else none)
    stored fun j hj => ?_]
  · rw [findSome?_ite, Option.map_some]
    cases stored.find? fun secret => name = secret.1 <;> rfl
  · rw [Nat.zero_add, getElem?_of_map_prefix hl.slots hj]
    simp [slotOf]

/-- What the middlewares and handlers are given as `secrets` is what `load_env` stored. -/
theorem Loading.Holds.getEnv_eq_getEnv {l : Loading} {env : Env} (hl : l.Holds env.secrets)
    (name : Bytes) : Secrets.getEnv ⟨some l.secrets, l.secretsCount⟩ name =
      some (getEnv env name) :=
  hl.getEnv_eq name

/-! ### Loading the environment -/

/-- The secrets a file gives. -/
def secretsOf (content : Bytes) : List (Bytes × Bytes) :=
  (textLines newline content).filterMap secretOf

theorem length_value_of_mem_secretsOf {content : Bytes} {secret : Bytes × Bytes}
    (h : secret ∈ secretsOf content) : secret.2.length ≤ content.length := by
  obtain ⟨line, hline, hsecret⟩ := List.mem_filterMap.mp h
  obtain ⟨left, right, rfl, -, -, -, hvalue, -⟩ := secretOf_eq_some_iff.mp hsecret
  have hright : (ltrim right).length ≤ right.length := List.length_dropWhile_le _ _
  have hle := length_le_of_mem_textLines hline
  rw [List.length_append, List.length_cons] at hle
  rw [← hvalue]
  omega

/-- What is printed: no value, only how long each one is. -/
theorem Loading.Holds.printed_eq {A : Allocator} {n : ℕ} (hA : A.Provides n) {l : Loading}
    {stored : List (Bytes × Bytes)} (hl : l.Holds stored)
    (hlen : ∀ secret ∈ stored, secret.2.length < n) :
    ((List.range l.secretsCount).mapM fun i => l.secrets[i]?.join.bind (hiddenSecret A)) =
      some (stored.map fun secret => (secret.1, List.replicate secret.2.length (ch '*'))) := by
  refine mapM_range_eq_some_iff.mpr ⟨by rw [List.length_map, hl.count], fun j hj => ?_⟩
  have hj' : j < stored.length := hl.count ▸ hj
  have hslot := getElem?_of_map_prefix hl.slots hj'
  obtain ⟨block, hblock⟩ := Option.isSome_iff_exists.mp
    (hA _ (Nat.succ_le_of_lt (hlen _ (List.getElem_mem hj'))))
  rw [hslot, List.getElem?_map, List.getElem?_eq_getElem hj']
  simp [slotOf, hiddenSecret, hblock]

/-- **After the first `load_env`, `get_env` is exact**: every write was inside its block, and every
name has the value the first line that gives it any gives it, or none. -/
def LoadsExactly (A : Allocator) (content : Bytes) : Prop :=
  ∃ g printed, loadEnv A (some content) .unloaded = some (g, printed) ∧
    ∀ name, ∃ value, g.getEnv name = some value ∧
      FirstValue (textLines newline content) name value

section Load

variable {A : Allocator} {content : Bytes}
  (hA : A.Provides (sizeofSecret * (content.length + 20))) (hfree : NulFree content)

include hA

theorem loadEnv_eq : loadEnv A (some content) .unloaded = (do
    match ← loadLines A .start content with
    | .error s => some (s, [])
    | .ok l =>
        let printed ← (List.range l.secretsCount).mapM fun i =>
          l.secrets[i]?.join.bind (hiddenSecret A)
        some (⟨some l.secrets, l.secretsCount⟩, printed)) := by
  have halloc : (A.alloc (20 * sizeofSecret)).isSome :=
    hA _ (by simp only [sizeofSecret]; omega)
  simp [loadEnv, Secrets.unloaded, halloc]

include hfree

theorem loadEnv_eq_some (hroom : (secretsOf content).length ≤ maxSecrets) :
    ∃ l : Loading, l.Holds (secretsOf content) ∧ loadEnv A (some content) .unloaded =
      some (⟨some l.secrets, l.secretsCount⟩, (secretsOf content).map fun secret =>
        (secret.1, List.replicate secret.2.length (ch '*'))) := by
  obtain ⟨l, hload, hl⟩ := loadLines_eq_some hA (Nat.le_refl _) Loading.holds_start hfree
    (by simp) hroom
  refine ⟨l, hl, ?_⟩
  have hprinted := hl.printed_eq hA fun secret hsecret => by
    have := length_value_of_mem_secretsOf hsecret
    simp only [sizeofSecret]
    omega
  rw [loadEnv_eq hA, hload]
  simp only [Option.bind_eq_bind, Option.bind_some, hprinted]
  rfl

theorem loadEnv_eq_none (hover : maxSecrets < (secretsOf content).length) :
    loadEnv A (some content) .unloaded = none := by
  rw [loadEnv_eq hA, loadLines_eq_none hA (Nat.le_refl _) Loading.holds_start hfree
    (by simp) (by simp) hover]
  rfl

end Load

/-- **When the secrets are what the file says**: always, unless they are more than the `int` that
counts the slots can count. -/
theorem loadsExactly_iff {A : Allocator} {content : Bytes} (hfree : NulFree content)
    (hA : A.Provides (sizeofSecret * (content.length + 20))) :
    LoadsExactly A content ↔ (secretsOf content).length ≤ maxSecrets := by
  constructor
  · rintro ⟨g, printed, hload, -⟩
    by_contra hover
    rw [loadEnv_eq_none hA hfree (Nat.lt_of_not_le hover)] at hload
    simp at hload
  · intro hroom
    obtain ⟨l, hl, hload⟩ := loadEnv_eq_some hA hfree hroom
    refine ⟨_, _, hload, fun name => ⟨_, hl.getEnv_eq name, ?_⟩⟩
    exact firstValue_find? (textLines newline content) name

/-- Two lines of a file, the last one without a newline. -/
theorem loadsExactly_sample :
    LoadsExactly (.filled 0) (lit " JWT_SECRET= k\nJWT_EXP=60") :=
  (loadsExactly_iff (by decide) (Allocator.provides_filled _ _)).mpr (by decide +kernel)

/-! ### A file with too many secrets -/

/-- `n` lines that each give the name `a` the value `b`. -/
theorem secretsOf_replicate (n : ℕ) :
    secretsOf (List.replicate n (lit "a=b\n")).flatten =
      List.replicate n (lit "a", lit "b") := by
  induction n with
  | zero => rfl
  | succ n ih =>
      have hline : lit "a=b\n" ++ (List.replicate n (lit "a=b\n")).flatten =
          lit "a=b" ++ newline :: (List.replicate n (lit "a=b\n")).flatten := by
        simp [lit, newline]
      have hsecret : secretOf (lit "a=b") = some (lit "a", lit "b") := by decide
      rw [List.replicate_succ, List.flatten_cons, List.replicate_succ, secretsOf, hline,
        textLines_append_cons (by decide), List.filterMap_cons_some hsecret, ← ih]
      rfl

theorem not_loadsExactly_replicate {n : ℕ} (hn : maxSecrets < n) :
    ¬ LoadsExactly (.filled 0) (List.replicate n (lit "a=b\n")).flatten := by
  rintro ⟨g, printed, hload, -⟩
  have hfree : NulFree (List.replicate n (lit "a=b\n")).flatten := by
    intro h
    obtain ⟨line, hline, h0⟩ := List.mem_flatten.mp h
    rw [List.eq_of_mem_replicate hline] at h0
    exact absurd h0 (by decide)
  rw [loadEnv_eq_none (Allocator.provides_filled _ _) hfree
    (by rwa [secretsOf_replicate, List.length_replicate])] at hload
  simp at hload

/-- **Too many secrets**: the next one after `maxSecrets` is not stored. -/
theorem not_loadsExactly_many :
    ¬ LoadsExactly (.filled 0) (List.replicate 2147483640 (lit "a=b\n")).flatten :=
  not_loadsExactly_replicate (by decide)

end CBank

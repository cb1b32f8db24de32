import CBank.SelectQuery

/-!
# The Id Tracker

The counters of `data/store.c` and `data/id_tracker_store.c`: one line `store=NAME;cur_id=N`
for each store, read by the select engine (`getNextIdentity`), rewritten line by line through
a temporary file (`updtNextIdentity`) and extended at start-up (`setupStores`). The first
rewrite closes every line with a semicolon that start-up does not write.

`Tracker` is what the file stands for: entries of distinct stores. `Disk.Holds d t` says that
the tracker file is the text of `t`, and each operation has one lemma that says what it
returns and performs on such a disk.

## Main results

* `getNextIdentity_of_some`: the number read is the counter.
* `updtNextIdentity_spec`: the rewrite advances one counter and closes the lines.
* `setupStores_spec`: start-up adds the missing counters at zero and changes no other.
-/

namespace CBank

open CLib

/-- The texts the tracker functions search a line for. -/
def storeKey : Bytes := lit "store="
def curIdKey : Bytes := lit "cur_id="

/-- One line of `id_tracker_has_store`; an empty name leaves the buffer unset. -/
def hasStoreLine (storeName line : Bytes) : Option Bool :=
  match strstr storeKey line with
  | none => some false
  | some storeToken =>
      (scanSet 49 (ch ';') (storeToken.drop storeKey.length)).map (· = storeName)

/-- `id_tracker_has_store` on the contents of the tracker. -/
def idTrackerHasStore (store : Store) (text : Bytes) : Option Bool :=
  (fileLines 256 text).anyM (hasStoreLine store.storeName)

/-- `initialize_id_tracker_if_needed`. -/
def initializeIdTrackerIfNeeded (store : Store) : Proc Disk FileOp Unit := do
  let hasStore ← Proc.read fun d => (d.table .idTracker).bind (idTrackerHasStore store)
  if hasStore then pure ()
  else Proc.perform <|
    .append .idTracker (storeKey ++ store.storeName ++ lit ";cur_id=0" ++ [newline])

/-- `setup_stores`. -/
def setupStores : Proc Disk FileOp Unit := do
  Proc.perform (.create .idTracker)
  Proc.perform (.create .user)
  Proc.perform (.create .account)
  Proc.perform (.create .transaction)
  initializeIdTrackerIfNeeded .user
  initializeIdTrackerIfNeeded .transaction
  initializeIdTrackerIfNeeded .account

/-- What `updt_next_identity` writes for one line; an empty name leaves the buffer unset. -/
def updtLine (storeName line : Bytes) : Option Bytes :=
  match strstr storeKey line, strstr curIdKey line with
  | some storeToken, some curidToken => do
      let tmpStoreName ← scanSet 49 (ch ';') (storeToken.drop storeKey.length)
      let curId := (scanInt (curidToken.drop curIdKey.length)).getD 0
      let curId := if tmpStoreName = storeName then toInt32 (curId + 1) else curId
      pure (storeKey ++ tmpStoreName ++ ch ';' :: (curIdKey ++ printInt curId ++ [ch ';']) ++
        [newline])
  | _, _ => some line

/-- `updt_next_identity`. -/
def updtNextIdentity (store : Store) : Proc Disk FileOp Unit := do
  let text ← Proc.read fun d => do
    let text ← d.table .idTracker
    let lines ← (fileLines 256 text).mapM (updtLine store.storeName)
    pure lines.flatten
  Proc.perform (.writeTmp text)
  Proc.perform .removeTracker
  Proc.perform .renameTmp
  Proc.perform (.create .idTracker)

/-- The query of `get_next_identity`. -/
def identityQuery (store : Store) : SelectQuery :=
  qwhere (qselect (newSelectQuery .idTracker) (lit "cur_id")) (lit "store") (lit "=")
    store.storeName

/-- `get_next_identity` into a buffer of 50 bytes. -/
def getNextIdentity (store : Store) : Proc Disk FileOp Bytes :=
  Proc.read fun d => do
    let result ← selectExecutor (identityQuery store) (d.table .idTracker)
    let id ← getRowColValue result 0 (lit "cur_id")
    pure (id.take 49)

/-! ### What the tracker stands for -/

/-- One counter; `closed` says that its line ends in a semicolon. -/
structure TrackerEntry where
  store : Store
  id : ℕ
  closed : Bool
  deriving DecidableEq, Repr

/-- Counters of distinct stores. -/
structure Tracker where
  entries : List TrackerEntry
  nodup : (entries.map TrackerEntry.store).Nodup

/-- The pairs of the line of a counter. -/
def TrackerEntry.row (e : TrackerEntry) : Row :=
  [(lit "store", e.store.storeName), (lit "cur_id", printNat e.id)]

/-- The line of a counter. -/
def TrackerEntry.line (e : TrackerEntry) : Bytes :=
  rowText e.row ++ if e.closed then [ch ';'] else []

/-- The text of a tracker. -/
def Tracker.text (t : Tracker) : Bytes := linesText (t.entries.map TrackerEntry.line)

/-- The tracker without counters, the text of an empty file. -/
def Tracker.empty : Tracker := ⟨[], List.nodup_nil⟩

/-- The tracker file is the text of `t`; a missing file counts as an empty one. -/
def Disk.Holds (d : Disk) (t : Tracker) : Prop := (d.table .idTracker).getD [] = t.text

/-- The counter of a store. -/
def Tracker.counter (t : Tracker) (s : Store) : Option ℕ :=
  (t.entries.find? fun e => e.store = s).map TrackerEntry.id

/-- Every counter fits an `int`. -/
def Tracker.Small (t : Tracker) : Prop := ∀ e ∈ t.entries, (e.id : ℤ) ≤ intMax

/-- Raise the counter of `s` and close every line. -/
def TrackerEntry.advance (s : Store) (e : TrackerEntry) : TrackerEntry :=
  { e with id := if e.store = s then e.id + 1 else e.id, closed := true }

/-- The tracker after `s` was advanced. -/
def Tracker.advance (t : Tracker) (s : Store) : Tracker where
  entries := t.entries.map (TrackerEntry.advance s)
  nodup := by
    rw [List.map_map]
    exact t.nodup

/-- The tracker with a new counter at zero. -/
def Tracker.add (t : Tracker) (s : Store) (h : s ∉ t.entries.map TrackerEntry.store) :
    Tracker where
  entries := t.entries ++ [⟨s, 0, false⟩]
  nodup := by
    rw [List.map_append]
    exact List.Nodup.append t.nodup (List.nodup_singleton s) (by simpa using h)

/-! ### The counters -/

/-- The entry of a store is the only one. -/
theorem filter_store_eq {entries : List TrackerEntry}
    (hnodup : (entries.map TrackerEntry.store).Nodup) {e : TrackerEntry} (he : e ∈ entries) :
    (entries.filter fun x => x.store = e.store) = [e] := by
  induction entries with
  | nil => simp at he
  | cons x entries ih =>
      rw [List.map_cons, List.nodup_cons] at hnodup
      obtain ⟨hx, hnodup⟩ := hnodup
      rcases List.mem_cons.mp he with rfl | he
      · have hnone : (entries.filter fun y => y.store = e.store) = [] := by
          rw [List.filter_eq_nil_iff]
          intro y hy heq
          exact hx (List.mem_map.mpr ⟨y, hy, by simpa using heq⟩)
        rw [List.filter_cons_of_pos (by simp), hnone]
      · have hne : x.store ≠ e.store := fun heq => hx (heq ▸ List.mem_map_of_mem he)
        rw [List.filter_cons_of_neg (by simpa using hne), ih hnodup he]

theorem Tracker.counter_eq_none_iff {t : Tracker} {s : Store} :
    t.counter s = none ↔ s ∉ t.entries.map TrackerEntry.store := by
  simp [Tracker.counter, List.find?_eq_none]

/-- The counter of a store is the number of its entry. -/
theorem Tracker.counter_eq_some_iff {t : Tracker} {s : Store} {n : ℕ} :
    t.counter s = some n ↔ ∃ e ∈ t.entries, e.store = s ∧ e.id = n := by
  constructor
  · intro h
    obtain ⟨e, hfind, rfl⟩ := Option.map_eq_some_iff.mp h
    refine ⟨e, List.mem_of_find?_eq_some hfind, ?_, rfl⟩
    simpa using List.find?_some hfind
  · rintro ⟨e, he, rfl, rfl⟩
    rw [Tracker.counter, ← List.head?_filter, filter_store_eq t.nodup he]
    rfl

/-- **Advancing one counter changes no other.** -/
theorem Tracker.counter_advance (t : Tracker) (s s' : Store) :
    (t.advance s).counter s' =
      if s' = s then (t.counter s').map (· + 1) else t.counter s' := by
  have hfind : ((t.entries.map (TrackerEntry.advance s)).find? fun e => e.store = s') =
      (t.entries.find? fun e => e.store = s').map (TrackerEntry.advance s) := by
    rw [List.find?_map]
    rfl
  rw [Tracker.counter, Tracker.advance, hfind, Tracker.counter, Option.map_map, Option.map_map]
  cases h : t.entries.find? fun e => e.store = s' with
  | none => simp
  | some e =>
      have hstore : e.store = s' := by simpa using List.find?_some h
      by_cases hs : s' = s
      · simp [TrackerEntry.advance, hstore, hs]
      · simp [TrackerEntry.advance, hstore, hs]

theorem Tracker.counter_add (t : Tracker) {s : Store} (h : s ∉ t.entries.map TrackerEntry.store)
    (s' : Store) : (t.add s h).counter s' = if s' = s then some 0 else t.counter s' := by
  by_cases hs : s' = s
  · subst hs
    rw [if_pos rfl, Tracker.counter_eq_some_iff]
    exact ⟨⟨s', 0, false⟩, by simp [Tracker.add], rfl, rfl⟩
  · rw [if_neg hs, Tracker.counter, Tracker.counter, Tracker.add, List.find?_append]
    simp [Ne.symm hs]

theorem Tracker.Small.advance {t : Tracker} (ht : t.Small) {s : Store}
    (hs : ∀ n, t.counter s = some n → (n : ℤ) < intMax) : (t.advance s).Small := by
  intro e he
  obtain ⟨x, hx, rfl⟩ := List.mem_map.mp he
  by_cases hstore : x.store = s
  · have hlt := hs x.id (Tracker.counter_eq_some_iff.mpr ⟨x, hx, hstore, rfl⟩)
    simp only [TrackerEntry.advance, hstore, if_true, Nat.cast_add, Nat.cast_one]
    omega
  · simpa [TrackerEntry.advance, hstore] using ht x hx

theorem Tracker.Small.add {t : Tracker} (ht : t.Small) {s : Store}
    (h : s ∉ t.entries.map TrackerEntry.store) : (t.add s h).Small := by
  intro e he
  rcases List.mem_append.mp he with he | he
  · exact ht e he
  · rw [List.mem_singleton.mp he]
    norm_num

/-! ### The lines -/

/-- What a store name is made of. -/
theorem storeName_spec (s : Store) :
    s.storeName ≠ [] ∧ s.storeName.length ≤ 23 ∧ NulFree s.storeName ∧
      ch ';' ∉ s.storeName ∧ ch '=' ∉ s.storeName ∧ newline ∉ s.storeName := by
  cases s <;> decide

theorem storeName_injective {s s' : Store} : s.storeName = s'.storeName ↔ s = s' := by
  constructor
  · cases s <;> cases s' <;> decide
  · rintro rfl
    rfl

/-- The text of a line around its two keys. -/
theorem TrackerEntry.line_eq (e : TrackerEntry) :
    e.line = storeKey ++ (e.store.storeName ++ ch ';' :: (curIdKey ++ (printNat e.id ++
      if e.closed then [ch ';'] else []))) := by
  simp [TrackerEntry.line, TrackerEntry.row, rowText, storeKey, curIdKey, lit, ch]

theorem TrackerEntry.columnOk_row {e : TrackerEntry} : ∀ p ∈ e.row, ColumnOk p.1 := by
  intro p hp
  simp only [TrackerEntry.row, List.mem_cons, List.not_mem_nil, or_false] at hp
  rcases hp with rfl | rfl
  · exact (by decide : ColumnOk (lit "store"))
  · exact (by decide : ColumnOk (lit "cur_id"))

theorem TrackerEntry.valueOk_row {e : TrackerEntry} :
    ∀ p ∈ e.row, NulFree p.2 ∧ ValueOk p.2 := by
  have hdigit : ∀ c : UInt8, isDigit c = false → c ∉ printNat e.id := by
    intro c hc h
    rw [isDigit_of_mem_printNat h] at hc
    exact Bool.noConfusion hc
  obtain ⟨-, -, hnul, hsemi, -, hnl⟩ := storeName_spec e.store
  intro p hp
  simp only [TrackerEntry.row, List.mem_cons, List.not_mem_nil, or_false] at hp
  rcases hp with rfl | rfl
  · exact ⟨hnul, hsemi, hnl⟩
  · exact ⟨hdigit _ (by decide), hdigit _ (by decide), hdigit _ (by decide)⟩

/-- The line of a counter that fits an `int` is short and has no newline. -/
theorem TrackerEntry.line_short {e : TrackerEntry} (he : (e.id : ℤ) ≤ intMax) :
    NulFree e.line ∧ newline ∉ e.line ∧ e.line.length + 1 < 256 := by
  have hnul := nulFree_rowText columnOk_row fun p hp => (valueOk_row (e := e) p hp).1
  have hnl := newline_not_mem_rowText columnOk_row fun p hp => (valueOk_row (e := e) p hp).2.2
  refine ⟨?_, ?_, ?_⟩
  · refine hnul.append ?_
    split
    · decide
    · decide
  · rw [TrackerEntry.line, List.mem_append, not_or]
    refine ⟨hnl, ?_⟩
    split
    · decide
    · decide
  · have hname := (storeName_spec e.store).2.1
    have hid : (printNat e.id).length ≤ 10 := by
      refine length_printNat_le (by norm_num) ?_
      have he' : (e.id : ℤ) ≤ 2 ^ 31 - 1 := he
      omega
    have hstore : storeKey.length = 6 := by decide
    have hcur : curIdKey.length = 7 := by decide
    have htail : (if e.closed then [ch ';'] else []).length ≤ 1 := by split <;> simp
    rw [TrackerEntry.line_eq]
    simp only [List.length_append, List.length_cons, hstore, hcur]
    omega

/-- The lines of the tracker file are the lines of the counters. -/
theorem Tracker.Small.fileLines {t : Tracker} (ht : t.Small) {size : ℕ} (hsize : 256 ≤ size) :
    fileLines size t.text = t.entries.map TrackerEntry.line := by
  refine fileLines_linesText ?_
  intro line hline
  obtain ⟨e, he, rfl⟩ := List.mem_map.mp hline
  obtain ⟨hnul, hnl, hlen⟩ := TrackerEntry.line_short (ht e he)
  exact ⟨hnul, hnl, by omega⟩

theorem TrackerEntry.strstr_storeKey (e : TrackerEntry) :
    strstr storeKey e.line = some e.line := by
  rw [TrackerEntry.line_eq]
  exact strstr_of_starts (List.prefix_append _ _)

theorem TrackerEntry.scanSet_store (e : TrackerEntry) :
    scanSet 49 (ch ';') (e.line.drop storeKey.length) = some e.store.storeName := by
  obtain ⟨hne, hlen, -, hsemi, -⟩ := storeName_spec e.store
  rw [TrackerEntry.line_eq, List.drop_left]
  exact scanSet_append_cons hne (by omega) hsemi _

theorem TrackerEntry.strstr_curIdKey (e : TrackerEntry) :
    strstr curIdKey e.line =
      some (curIdKey ++ (printNat e.id ++ if e.closed then [ch ';'] else [])) := by
  have habsent : ¬ lit "cur_id" ++ [ch '='] <:+: storeKey ++ (e.store.storeName ++ [ch ';']) := by
    cases e.store <;> decide
  have hfirst := firstOccurrence_of_absent (by decide) habsent
    (printNat e.id ++ if e.closed then [ch ';'] else [])
  have hline : e.line = storeKey ++ (e.store.storeName ++ [ch ';']) ++
      (lit "cur_id" ++ [ch '=']) ++ (printNat e.id ++ if e.closed then [ch ';'] else []) := by
    rw [TrackerEntry.line_eq]
    simp [curIdKey, lit, ch]
  rw [hline]
  exact hfirst.strstr_eq

theorem TrackerEntry.scanInt_curId {e : TrackerEntry} (he : (e.id : ℤ) ≤ intMax) :
    scanInt (printNat e.id ++ if e.closed then [ch ';'] else []) = some (e.id : ℤ) := by
  refine scanInt_printNat he ?_
  split
  · exact noDigit_cons (by decide) []
  · exact noDigit_nil

/-! ### What the operations do -/

/-- A tracker with a counter is not a missing file. -/
theorem Disk.Holds.table {d : Disk} {t : Tracker} (h : d.Holds t) {s : Store} {n : ℕ}
    (hn : t.counter s = some n) : d.table .idTracker = some t.text := by
  obtain ⟨e, he, -⟩ := Tracker.counter_eq_some_iff.mp hn
  have hne : t.text ≠ [] := by
    obtain ⟨x, xs, hxs⟩ := List.exists_cons_of_ne_nil (List.ne_nil_of_mem he)
    simp [Tracker.text, linesText, hxs]
  cases hfile : d.table .idTracker with
  | none =>
      rw [Disk.Holds, hfile] at h
      exact absurd h.symm hne
  | some text =>
      rw [Disk.Holds, hfile] at h
      exact congrArg some h

/-- Operations on other files leave the tracker as it is. -/
theorem Disk.Holds.exec {d : Disk} {t : Tracker} (h : d.Holds t) {op : FileOp}
    (hop : op.target ≠ some .idTracker) : (op.exec d).Holds t := by
  rw [Disk.Holds, FileOp.exec_table_of_not_target d hop]
  exact h

theorem Disk.Holds.insert {d : Disk} {t : Tracker} (h : d.Holds t) {s : Store}
    (hs : s ≠ .idTracker) (row : Row) : ((FileOp.insert s row).exec d).Holds t :=
  h.exec (by simpa [FileOp.target] using hs)

theorem Disk.Holds.create {d : Disk} {t : Tracker} (h : d.Holds t) (s : Store) :
    ((FileOp.create s).exec d).Holds t := by
  by_cases hs : s = .idTracker
  · subst hs
    simpa [Disk.Holds, FileOp.exec] using h
  · exact h.exec (by simpa [FileOp.target] using hs)

theorem applySelectWhere_line {s : Store} {e : TrackerEntry} (he : (e.id : ℤ) ≤ intMax) :
    applySelectWhere (identityQuery s) e.line = decide (e.store = s) ∧
      selectPairs (identityQuery s).columns e.line = [(lit "cur_id", printNat e.id)] := by
  have hquery : identityQuery s =
      ⟨.idTracker, [lit "cur_id"], [⟨lit "store", lit "=", s.storeName⟩]⟩ := by
    cases s <;> decide
  have hlen : e.line.length ≤ 1023 := by
    have := (TrackerEntry.line_short he).2.2
    omega
  have hrow : linePairs (rowText e.row) = e.row :=
    linePairs_rowText TrackerEntry.columnOk_row fun p hp => (TrackerEntry.valueOk_row p hp).2.1
  have hpairs : linePairs e.line = e.row := by
    rw [TrackerEntry.line]
    split
    · rw [linePairs, tokens_append_cons (by simp), tokens_nil, List.append_nil]
      exact hrow
    · rw [List.append_nil]
      exact hrow
  have hkeys : lit "store" ≠ lit "cur_id" := by decide
  rw [hquery]
  constructor
  · simp [applySelectWhere, List.take_of_length_le hlen, hpairs, TrackerEntry.row, hkeys,
      CBank.compare, storeName_injective]
  · simp [selectPairs, hpairs, TrackerEntry.row, hkeys.symm]

/-- The rows the query for a counter keeps. -/
theorem matchedRows_identityQuery {t : Tracker} (ht : t.Small) (s : Store) :
    matchedRows (identityQuery s) t.text = (t.entries.filter fun x => x.store = s).map
      fun e => [(lit "cur_id", printNat e.id)] := by
  have hlines : tableLines t.text = t.entries.map TrackerEntry.line := ht.fileLines (by norm_num)
  have hfilter : t.entries.filter ((fun line => applySelectWhere (identityQuery s) line) ∘
      TrackerEntry.line) = t.entries.filter fun x => x.store = s :=
    List.filter_congr fun x hx => (applySelectWhere_line (ht x hx)).1
  rw [matchedRows, hlines, List.filter_map, hfilter, List.map_map]
  refine List.map_congr_left ?_
  intro e he
  exact (applySelectWhere_line (ht e (List.mem_of_mem_filter he))).2

/-- **The number read is the counter.** -/
theorem getNextIdentity_of_some {d : Disk} {t : Tracker} (h : d.Holds t) (ht : t.Small)
    {s : Store} {n : ℕ} (hn : t.counter s = some n) :
    (getNextIdentity s).result d = some (printNat n) := by
  obtain ⟨e, he, rfl, rfl⟩ := Tracker.counter_eq_some_iff.mp hn
  have hrows : matchedRows (identityQuery e.store) t.text =
      [[(lit "cur_id", printNat e.id)]] := by
    rw [matchedRows_identityQuery ht, filter_store_eq t.nodup he]
    rfl
  have hselect : selectExecutor (identityQuery e.store) (some t.text) =
      some (ResultSet.ofRows [[(lit "cur_id", printNat e.id)]]) :=
    selectExecutor_eq_ofRows hrows (by norm_num) (by simp)
  have hlen : (printNat e.id).length ≤ 49 := by
    have he' : (e.id : ℤ) ≤ 2 ^ 31 - 1 := ht e he
    have := length_printNat_le (n := e.id) (k := 10) (by norm_num) (by omega)
    omega
  rw [getNextIdentity, Proc.result_read, h.table hn, hselect]
  simp [getRowColValue, ResultSet.ofRows, List.take_of_length_le hlen]

/-- Without a counter there is no number to read. -/
theorem getNextIdentity_of_none {d : Disk} {t : Tracker} (h : d.Holds t) (ht : t.Small)
    {s : Store} (hn : t.counter s = none) : (getNextIdentity s).result d = none := by
  rw [getNextIdentity, Proc.result_read]
  cases hfile : d.table .idTracker with
  | none => rfl
  | some text =>
      rw [Disk.Holds, hfile, Option.getD_some] at h
      have hrows : matchedRows (identityQuery s) t.text = [] := by
        rw [matchedRows_identityQuery ht, List.map_eq_nil_iff, List.filter_eq_nil_iff]
        intro e he hs
        exact Tracker.counter_eq_none_iff.mp hn (List.mem_map.mpr ⟨e, he, by simpa using hs⟩)
      have hselect : selectExecutor (identityQuery s) (some t.text) =
          some (ResultSet.ofRows []) :=
        selectExecutor_eq_ofRows hrows (by norm_num) (by simp)
      rw [h, hselect]
      rfl

theorem updtLine_line {s : Store} {e : TrackerEntry} (he : (e.id : ℤ) ≤ intMax)
    (hs : e.store = s → (e.id : ℤ) < intMax) :
    updtLine s.storeName e.line = some ((e.advance s).line ++ [newline]) := by
  have hcur : (if e.store.storeName = s.storeName then toInt32 ((e.id : ℤ) + 1) else (e.id : ℤ)) =
      ((e.advance s).id : ℤ) := by
    by_cases hstore : e.store = s
    · have hlt : (e.id : ℤ) + 1 ≤ intMax := hs hstore
      rw [if_pos (storeName_injective.mpr hstore), toInt32_of_range (by omega) hlt]
      simp [TrackerEntry.advance, hstore]
    · rw [if_neg (mt storeName_injective.mp hstore)]
      simp [TrackerEntry.advance, hstore]
  have hprint : ∀ n : ℕ, printInt (n : ℤ) = printNat n := fun _ => rfl
  rw [updtLine, TrackerEntry.strstr_storeKey, TrackerEntry.strstr_curIdKey]
  simp only [TrackerEntry.scanSet_store, List.drop_left, TrackerEntry.scanInt_curId he,
    Option.getD_some, bind, Option.bind_some, hcur, hprint, Option.pure_def]
  rw [TrackerEntry.line_eq]
  simp [TrackerEntry.advance]

/-- Mapping a function that succeeds on every element. -/
theorem mapM_line_eq {f : Bytes → Option Bytes} {g : TrackerEntry → Bytes}
    {entries : List TrackerEntry} (h : ∀ e ∈ entries, f e.line = some (g e)) :
    (entries.map TrackerEntry.line).mapM f = some (entries.map g) := by
  rw [mapM_eq_some_iff, List.forall₂_map_left_iff, List.forall₂_map_right_iff, List.forall₂_same]
  exact h

/-- The operations that replace the tracker by one with the text of `t`. -/
def replaceOps (t : Tracker) : List FileOp := [.writeTmp t.text, .removeTracker, .renameTmp]

/-- What a rewrite performs that has a text for every line. -/
theorem updtNextIdentity_performs {d : Disk} {text : Bytes} (htext : d.table .idTracker = some text)
    {s : Store} {pieces : List Bytes}
    (hpieces : (fileLines 256 text).mapM (updtLine s.storeName) = some pieces) :
    (updtNextIdentity s).Performs d
      [.writeTmp pieces.flatten, .removeTracker, .renameTmp, .create .idTracker] (some ()) := by
  have hread : ((d.table .idTracker).bind fun text =>
      ((fileLines 256 text).mapM (updtLine s.storeName)).bind fun lines => some lines.flatten) =
        some pieces.flatten := by
    rw [htext, Option.bind_some, hpieces, Option.bind_some]
  exact Proc.Performs.read_bind hread <| Proc.Performs.perform_bind <|
    Proc.Performs.perform_bind <| Proc.Performs.perform_bind <| Proc.performs_perform _ _

/-- **The rewrite advances one counter and closes the lines.** -/
theorem updtNextIdentity_spec {d : Disk} {t : Tracker} (h : d.table .idTracker = some t.text)
    (ht : t.Small) {s : Store} (hlt : ∀ n, t.counter s = some n → (n : ℤ) < intMax) :
    (updtNextIdentity s).Performs d (replaceOps (t.advance s) ++ [.create .idTracker])
      (some ()) := by
  have hlines : (fileLines 256 t.text).mapM (updtLine s.storeName) =
      some (t.entries.map fun e => (e.advance s).line ++ [newline]) := by
    rw [ht.fileLines le_rfl]
    refine mapM_line_eq ?_
    intro e he
    refine updtLine_line (ht e he) ?_
    exact fun hs => hlt e.id (Tracker.counter_eq_some_iff.mpr ⟨e, he, hs, rfl⟩)
  have htext : (t.entries.map fun e => (e.advance s).line ++ [newline]).flatten =
      (t.advance s).text := by
    simp [Tracker.text, Tracker.advance, linesText, List.flatMap_def]
    rfl
  have hperf := updtNextIdentity_performs h hlines
  rwa [htext] at hperf

/-- The tracker file after it was replaced. -/
theorem holds_replaceOps (d : Disk) (t : Tracker) :
    (Proc.execAll d (replaceOps t)).Holds t := by
  simp [Disk.Holds, replaceOps, FileOp.exec]

/-! ### Start-up -/

/-- The scan finds the counters that are there. -/
theorem idTrackerHasStore_text {t : Tracker} (ht : t.Small) (s : Store) :
    idTrackerHasStore s t.text = some (decide (s ∈ t.entries.map TrackerEntry.store)) := by
  have hline : ∀ e : TrackerEntry,
      hasStoreLine s.storeName e.line = some (decide (e.store = s)) := by
    intro e
    rw [hasStoreLine, TrackerEntry.strstr_storeKey]
    simp only [TrackerEntry.scanSet_store, Option.map_some, storeName_injective]
  rw [idTrackerHasStore, ht.fileLines le_rfl]
  clear ht
  induction t.entries with
  | nil => rfl
  | cons e entries ih =>
      rw [List.map_cons, List.anyM_cons, hline]
      by_cases hs : e.store = s
      · simp [hs]
      · simp [hs, Ne.symm hs, ih]

/-- The operation that adds a counter. -/
def addOp (s : Store) : FileOp :=
  .append .idTracker (storeKey ++ s.storeName ++ lit ";cur_id=0" ++ [newline])

/-- The tracker after start-up made sure of a counter. -/
def Tracker.ensure (t : Tracker) (s : Store) : Tracker :=
  if h : s ∈ t.entries.map TrackerEntry.store then t else t.add s h

/-- What start-up performs for a counter. -/
def ensureOps (t : Tracker) (s : Store) : List FileOp :=
  if s ∈ t.entries.map TrackerEntry.store then [] else [addOp s]

/-- **Start-up adds a missing counter at zero.** -/
theorem initializeIdTracker_spec {d : Disk} {t : Tracker} (h : d.table .idTracker = some t.text)
    (ht : t.Small) (s : Store) :
    (initializeIdTrackerIfNeeded s).Performs d (ensureOps t s) (some ()) := by
  have hread : (d.table .idTracker).bind (idTrackerHasStore s) =
      some (decide (s ∈ t.entries.map TrackerEntry.store)) := by
    rw [h, Option.bind_some, idTrackerHasStore_text ht]
  refine Proc.Performs.read_bind hread ?_
  rw [ensureOps]
  by_cases hs : s ∈ t.entries.map TrackerEntry.store
  · rw [if_pos hs, if_pos (decide_eq_true hs)]
    exact Proc.performs_pure _ _
  · rw [if_neg hs, if_neg (by simpa using hs)]
    exact Proc.performs_perform _ _

theorem text_add (t : Tracker) {s : Store} (h : s ∉ t.entries.map TrackerEntry.store) :
    (t.add s h).text = t.text ++ (storeKey ++ s.storeName ++ lit ";cur_id=0" ++ [newline]) := by
  have hline : (⟨s, 0, false⟩ : TrackerEntry).line =
      storeKey ++ s.storeName ++ lit ";cur_id=0" := by
    cases s <;> decide
  rw [Tracker.text, Tracker.add, List.map_append, linesText_append, List.map_singleton, hline]
  simp [Tracker.text, linesText]

/-- Adding a counter to the file adds it to the tracker. -/
theorem table_addOp {d : Disk} {t : Tracker} (h : d.table .idTracker = some t.text) {s : Store}
    (hs : s ∉ t.entries.map TrackerEntry.store) :
    ((addOp s).exec d).table .idTracker = some (t.add s hs).text := by
  simp [addOp, FileOp.exec, h, text_add]

theorem table_ensureOps {d : Disk} {t : Tracker} (h : d.table .idTracker = some t.text)
    (s : Store) :
    (Proc.execAll d (ensureOps t s)).table .idTracker = some (t.ensure s).text := by
  rw [ensureOps, Tracker.ensure]
  split
  · exact h
  · rename_i hs
    exact table_addOp h hs

theorem Tracker.Small.ensure {t : Tracker} (ht : t.Small) (s : Store) : (t.ensure s).Small := by
  rw [Tracker.ensure]
  split
  · exact ht
  · rename_i hs
    exact ht.add hs

/-- The operations of start-up on a tracker. -/
def setupOps (t : Tracker) : List FileOp :=
  .create .idTracker :: .create .user :: .create .account :: .create .transaction ::
    (ensureOps t .user ++ (ensureOps (t.ensure .user) .transaction ++
      ensureOps ((t.ensure .user).ensure .transaction) .account))

/-- **Start-up adds the counters that are missing**, and changes no other. -/
theorem setupStores_spec {d : Disk} {t : Tracker} (h : d.Holds t) (ht : t.Small) :
    setupStores.Performs d (setupOps t) (some ()) := by
  have hfile : (Proc.execAll d ([.create .idTracker, .create .user, .create .account,
      .create .transaction] : List FileOp)).table .idTracker = some t.text := by
    rw [Disk.Holds] at h
    simpa [FileOp.exec] using h
  refine Proc.Performs.perform_bind <| Proc.Performs.perform_bind <|
    Proc.Performs.perform_bind <| Proc.Performs.perform_bind ?_
  refine Proc.Performs.bind (initializeIdTracker_spec hfile ht .user) ?_
  refine Proc.Performs.bind
    (initializeIdTracker_spec (table_ensureOps hfile _) (ht.ensure _) .transaction) ?_
  exact initializeIdTracker_spec (table_ensureOps (table_ensureOps hfile _) _)
    ((ht.ensure _).ensure _) .account

end CBank

import CBank.Registration

/-!
# The Ledger of Given Ids

What a run does to the counters and to the ids that are given out, without the rest of it.
`Ledger ops t` says that the file operations `ops`, from an empty directory, are a sequence
of start-up steps and of whole records, a record being a row that carries the counter of its
store as id, followed by the tracker with that counter advanced; `t` is the tracker they
lead to.

A run may be stopped between two operations. It stays a ledger as long as it is not stopped
within a record, that is after the row and before the tracker is renamed (`settled`).

## Main results

* `Ledger.insertedIds`: the ids given out are the numbers below the counter, in order.
* `Ledger.sorted`: no counter ever decreases, at no operation.
* `Ledger.setup`, `Ledger.register_take`: start-up and registration extend a ledger,
  wherever they are stopped outside a record.
-/

namespace CBank

open CLib

/-- The states after each operation of a list. -/
def laterStates : Disk → List FileOp → List Disk
  | _, [] => []
  | d, op :: ops => op.exec d :: laterStates (op.exec d) ops

/-- The states a list of operations goes through, the first one included. -/
def states (d : Disk) (ops : List FileOp) : List Disk := d :: laterStates d ops

/-- The counter of a store, as `get_next_identity` reads it. -/
def counterOf (s : Store) (d : Disk) : Option ℤ := ((getNextIdentity s).result d).map readInt

/-- The row of a store was appended, and the tracker not renamed since. -/
def pendingAfter (pending : Bool) : FileOp → Bool
  | .insert _ _ => true
  | .renameTmp => false
  | _ => pending

/-- No row was appended after the last rename of the tracker. -/
def settled (ops : List FileOp) : Prop := ops.foldl pendingAfter false = false

instance (ops : List FileOp) : Decidable (settled ops) := inferInstanceAs (Decidable (_ = _))

/-- Start-up steps and whole records, and the tracker they lead to. -/
inductive Ledger : List FileOp → Tracker → Prop
  | start : Ledger [] Tracker.empty
  | create {ops : List FileOp} {t : Tracker} (h : Ledger ops t) (s : Store) :
      Ledger (ops ++ [.create s]) t
  | add {ops : List FileOp} {t : Tracker} {s : Store} (h : Ledger ops t)
      (hs : s ∉ t.entries.map TrackerEntry.store) : Ledger (ops ++ [addOp s]) (t.add s hs)
  | record {ops : List FileOp} {t : Tracker} {s : Store} {n : ℕ} {row : Row} (h : Ledger ops t)
      (hs : s ≠ .idTracker) (hn : t.counter s = some n) (hlt : (n : ℤ) < intMax)
      (hrow : row.lookup (lit "id") = some (printNat n)) :
      Ledger (ops ++ .insert s row :: replaceOps (t.advance s)) (t.advance s)

/-- The counter read off a disk is the counter of its tracker. -/
theorem counterOf_eq {d : Disk} {t : Tracker} (h : d.Holds t) (ht : t.Small) (s : Store) :
    counterOf s d = (t.counter s).map fun n : ℕ => (n : ℤ) := by
  cases hn : t.counter s with
  | none => rw [counterOf, getNextIdentity_of_none h ht hn, Option.map_none, Option.map_none]
  | some n =>
      have hread : readInt (printNat n) = n := by
        have hprint : readInt (printNat n ++ []) = n := readInt_printInt n noDigit_nil
        rwa [List.append_nil] at hprint
      rw [counterOf, getNextIdentity_of_some h ht hn, Option.map_some, Option.map_some, hread]

theorem Ledger.small {ops : List FileOp} {t : Tracker} (h : Ledger ops t) : t.Small := by
  induction h with
  | start => exact fun e he => absurd he List.not_mem_nil
  | create h s ih => exact ih
  | add h hs ih => exact ih.add hs
  | record h hs hn hlt hrow ih =>
      refine ih.advance ?_
      intro m hm
      rw [hn, Option.some.injEq] at hm
      rwa [← hm]

/-- **A ledger keeps the tracker file.** -/
theorem Ledger.holds {ops : List FileOp} {t : Tracker} (h : Ledger ops t) :
    (Proc.execAll Disk.empty ops).Holds t := by
  induction h with
  | start => rfl
  | create h s ih =>
      rw [Proc.execAll_append]
      exact ih.create s
  | @add ops t s h hs ih =>
      rw [Proc.execAll_append, Disk.Holds, text_add]
      rw [Disk.Holds] at ih
      simp [addOp, FileOp.exec, ih]
  | record h hs hn hlt hrow ih =>
      rw [Proc.execAll_append, Proc.execAll_cons]
      exact holds_replaceOps _ _

/-- The ids of the rows appended to a store. -/
theorem insertedIds_append (s : Store) (ops ops' : List FileOp) :
    insertedIds s (ops ++ ops') = insertedIds s ops ++ insertedIds s ops' :=
  List.filterMap_append

theorem insertedIds_record {s s' : Store} {row : Row} {t : Tracker} :
    insertedIds s' (.insert s row :: replaceOps t) =
      if s = s' then (row.lookup (lit "id")).toList else [] := by
  by_cases hs : s = s'
  · cases hrow : row.lookup (lit "id") with
    | none => simp [insertedIds, replaceOps, hs, hrow]
    | some id => simp [insertedIds, replaceOps, hs, hrow]
  · simp [insertedIds, replaceOps, hs]

theorem insertedIds_recordOps {s s' : Store} {row : Row} {t : Tracker} :
    insertedIds s' (recordOps t s row) =
      if s = s' then (row.lookup (lit "id")).toList else [] := by
  rw [recordOps, ← List.cons_append, insertedIds_append, insertedIds_record]
  simp [insertedIds]

/-- **The ids given out are the numbers below the counter**, in order. -/
theorem Ledger.insertedIds {ops : List FileOp} {t : Tracker} (h : Ledger ops t) (s : Store) :
    insertedIds s ops = (List.range ((t.counter s).getD 0)).map printNat := by
  induction h with
  | start => rfl
  | create h s' ih =>
      rw [insertedIds_append, ih]
      simp [CBank.insertedIds]
  | @add ops t s' h hs ih =>
      have hzero : ((t.add s' hs).counter s).getD 0 = (t.counter s).getD 0 := by
        rw [Tracker.counter_add]
        split
        · rename_i heq
          rw [heq, Tracker.counter_eq_none_iff.mpr hs]
          rfl
        · rfl
      rw [insertedIds_append, ih, hzero]
      simp [CBank.insertedIds, addOp]
  | @record ops t s' n row h hs hn hlt hrow ih =>
      rw [insertedIds_append, ih, insertedIds_record, Tracker.counter_advance]
      by_cases heq : s' = s
      · subst heq
        simp [hn, hrow, List.range_succ]
      · simp [heq, Ne.symm heq]

/-! ### The counters over time -/

theorem laterStates_append (d : Disk) (ops ops' : List FileOp) :
    laterStates d (ops ++ ops') =
      laterStates d ops ++ laterStates (Proc.execAll d ops) ops' := by
  induction ops generalizing d with
  | nil => rfl
  | cons op ops ih => exact congrArg (op.exec d :: ·) (ih (op.exec d))

/-- The counters read in the states after each operation. -/
def laterCounters (s : Store) (d : Disk) (ops : List FileOp) : List ℤ :=
  (laterStates d ops).filterMap (counterOf s)

theorem laterCounters_append (s : Store) (d : Disk) (ops ops' : List FileOp) :
    laterCounters s d (ops ++ ops') =
      laterCounters s d ops ++ laterCounters s (Proc.execAll d ops) ops' := by
  rw [laterCounters, laterStates_append, List.filterMap_append, laterCounters, laterCounters]

/-- The last value of a counter that may be missing. -/
def Tracker.counterD (t : Tracker) (s : Store) : ℤ := ((t.counter s).getD 0 : ℕ)

/-- The reading of a counter that may be missing. -/
def Tracker.reading (t : Tracker) (s : Store) : List ℤ :=
  ((t.counter s).map fun n : ℕ => (n : ℤ)).toList

theorem Tracker.mem_reading {t : Tracker} {s : Store} {x : ℤ} (h : x ∈ t.reading s) :
    x = t.counterD s := by
  cases hn : t.counter s with
  | none => simp [Tracker.reading, hn] at h
  | some n => simpa [Tracker.reading, Tracker.counterD, hn] using h

theorem Tracker.reading_pairwise (t : Tracker) (s : Store) :
    (t.reading s).Pairwise (· ≤ ·) := by
  cases hn : t.counter s with
  | none => simp [Tracker.reading, hn]
  | some n => simp [Tracker.reading, hn]

theorem Tracker.counterD_add (t : Tracker) {s : Store} (h : s ∉ t.entries.map TrackerEntry.store)
    (s' : Store) : (t.add s h).counterD s' = t.counterD s' := by
  rw [Tracker.counterD, Tracker.counterD, Tracker.counter_add]
  split
  · rename_i heq
    rw [heq, Tracker.counter_eq_none_iff.mpr h]
    rfl
  · rfl

theorem Tracker.counterD_le_advance (t : Tracker) (s s' : Store) :
    t.counterD s' ≤ (t.advance s).counterD s' := by
  rw [Tracker.counterD, Tracker.counterD, Tracker.counter_advance]
  split
  · cases t.counter s' with
    | none => rfl
    | some n => simp
  · rfl

/-- An operation that keeps the tracker shows its counter once more. -/
theorem laterCounters_one {d : Disk} {op : FileOp} {t : Tracker} (h : (op.exec d).Holds t)
    (ht : t.Small) (s : Store) : laterCounters s d [op] = t.reading s := by
  have hcount := counterOf_eq h ht s
  cases hn : (t.counter s).map fun n : ℕ => (n : ℤ) with
  | none => simp [laterCounters, laterStates, Tracker.reading, hcount, hn]
  | some n => simp [laterCounters, laterStates, Tracker.reading, hcount, hn]

/-- The counters seen while a record is written: the old one twice, none while the tracker
is gone, and the new one. -/
theorem laterCounters_record {d : Disk} {t t' : Tracker} (h : d.Holds t) (ht : t.Small)
    (ht' : t'.Small) {s : Store} (hs : s ≠ .idTracker) (row : Row) (s' : Store) :
    laterCounters s' d (.insert s row :: replaceOps t') =
      t.reading s' ++ (t.reading s' ++ t'.reading s') := by
  set d₁ := (FileOp.insert s row).exec d with hd₁
  set d₂ := (FileOp.writeTmp t'.text).exec d₁ with hd₂
  set d₃ := FileOp.removeTracker.exec d₂ with hd₃
  have h₁ : d₁.Holds t := h.insert hs row
  have h₂ : d₂.Holds t := h₁.exec (by simp [FileOp.target])
  have h₃ : d₃.Holds Tracker.empty := by simp [hd₃, Disk.Holds, FileOp.exec, Tracker.text,
    Tracker.empty, linesText]
  have h₄ : (FileOp.renameTmp.exec d₃).Holds t' := by
    simp [hd₃, hd₂, Disk.Holds, FileOp.exec]
  have hempty : Tracker.empty.Small := fun e he => absurd he List.not_mem_nil
  have hsplit : (.insert s row :: replaceOps t' : List FileOp) =
      [.insert s row] ++ ([.writeTmp t'.text] ++ ([.removeTracker] ++ [.renameTmp])) := rfl
  have hw := laterCounters_one (d := d₁) h₂ ht s'
  have hr := laterCounters_one (d := d₂) h₃ hempty s'
  have hn := laterCounters_one (d := d₃) h₄ ht' s'
  rw [hsplit, laterCounters_append, laterCounters_append, laterCounters_append,
    laterCounters_one h₁ ht]
  exact congrArg (t.reading s' ++ ·) (congrArg₂ (· ++ ·) hw (congrArg₂ (· ++ ·) hr hn))

/-- Sorted numbers below `m` go on with sorted numbers between `m` and `m'`. -/
theorem sorted_append {l l' : List ℤ} {m m' : ℤ} (hm : m ≤ m')
    (h : l.Pairwise (· ≤ ·) ∧ ∀ x ∈ l, x ≤ m)
    (h' : l'.Pairwise (· ≤ ·) ∧ ∀ x ∈ l', m ≤ x ∧ x ≤ m') :
    (l ++ l').Pairwise (· ≤ ·) ∧ ∀ x ∈ l ++ l', x ≤ m' := by
  refine ⟨List.pairwise_append.mpr ⟨h.1, h'.1, fun x hx y hy => ?_⟩, fun x hx => ?_⟩
  · exact (h.2 x hx).trans (h'.2 y hy).1
  · rcases List.mem_append.mp hx with hx | hx
    · exact (h.2 x hx).trans hm
    · exact (h'.2 x hx).2

/-- The counters seen go on with a reading of a tracker that is not behind. -/
theorem sorted_append_reading {l : List ℤ} {m : ℤ} {t : Tracker} {s : Store}
    (hm : m ≤ t.counterD s) (h : l.Pairwise (· ≤ ·) ∧ ∀ x ∈ l, x ≤ m) :
    (l ++ t.reading s).Pairwise (· ≤ ·) ∧ ∀ x ∈ l ++ t.reading s, x ≤ t.counterD s :=
  sorted_append hm h ⟨t.reading_pairwise s, fun _ hx => by
    rw [Tracker.mem_reading hx]
    exact ⟨hm, le_rfl⟩⟩

/-- The counters seen so far are sorted, and none is above the present one. -/
theorem Ledger.laterCounters_sorted {ops : List FileOp} {t : Tracker} (h : Ledger ops t)
    (s : Store) :
    (laterCounters s Disk.empty ops).Pairwise (· ≤ ·) ∧
      ∀ x ∈ laterCounters s Disk.empty ops, x ≤ t.counterD s := by
  induction h with
  | start => exact ⟨List.Pairwise.nil, fun x hx => absurd hx List.not_mem_nil⟩
  | create h s' ih =>
      rw [laterCounters_append, laterCounters_one (h.holds.create s') h.small]
      exact sorted_append_reading le_rfl ih
  | @add ops t s' h hs ih =>
      have hadd := h.add hs
      have hone : laterCounters s (Proc.execAll Disk.empty ops) [addOp s'] =
          (t.add s' hs).reading s := by
        refine laterCounters_one ?_ hadd.small s
        have hholds := hadd.holds
        rwa [Proc.execAll_append] at hholds
      rw [laterCounters_append, hone]
      exact sorted_append_reading (t.counterD_add hs s).ge ih
  | @record ops t s' n row h hs hn hlt hrow ih =>
      have hsmall := (h.record hs hn hlt hrow).small
      rw [laterCounters_append, laterCounters_record h.holds h.small hsmall hs,
        ← List.append_assoc, ← List.append_assoc]
      exact sorted_append_reading (t.counterD_le_advance s' s)
        (sorted_append_reading le_rfl (sorted_append_reading le_rfl ih))

/-- **No counter ever decreases**: along the states a ledger goes through, the counters that
can be read are sorted. -/
theorem Ledger.sorted {ops : List FileOp} {t : Tracker} (h : Ledger ops t) (s : Store) :
    ((states Disk.empty ops).filterMap (counterOf s)).Pairwise (· ≤ ·) := by
  have hfirst : counterOf s Disk.empty = none := rfl
  rw [states, List.filterMap_cons_none hfirst]
  exact (h.laterCounters_sorted s).1

/-! ### What extends a ledger -/

/-- A later tracker: counters are kept or start at zero. -/
def Tracker.Extends (t t' : Tracker) : Prop :=
  ∀ s, t'.counter s = t.counter s ∨ (t.counter s = none ∧ t'.counter s = some 0)

theorem Tracker.Extends.refl (t : Tracker) : t.Extends t := fun _ => Or.inl rfl

theorem Tracker.Extends.trans {t t' t'' : Tracker} (h : t.Extends t') (h' : t'.Extends t'') :
    t.Extends t'' := by
  intro s
  rcases h s with heq | ⟨hnone, hzero⟩
  · rcases h' s with heq' | ⟨hnone', hzero'⟩
    · exact Or.inl (heq'.trans heq)
    · exact Or.inr ⟨heq ▸ hnone', hzero'⟩
  · rcases h' s with heq' | ⟨hnone', hzero'⟩
    · exact Or.inr ⟨hnone, heq'.trans hzero⟩
    · rw [hzero] at hnone'
      exact absurd hnone' (by simp)

theorem Tracker.extends_add (t : Tracker) {s : Store} (h : s ∉ t.entries.map TrackerEntry.store) :
    t.Extends (t.add s h) := by
  intro s'
  rw [Tracker.counter_add]
  by_cases hs : s' = s
  · rw [if_pos hs, hs]
    exact Or.inr ⟨Tracker.counter_eq_none_iff.mpr h, rfl⟩
  · rw [if_neg hs]
    exact Or.inl rfl

/-- A ledger goes on to `ops'` and a tracker that extends the present one, wherever it is
stopped. -/
def ExtendsLedger (ops : List FileOp) (t : Tracker) (ops' : List FileOp) (t' : Tracker) : Prop :=
  (∀ n, ∃ t₁, Ledger (ops ++ ops'.take n) t₁ ∧ t.Extends t₁) ∧
    Ledger (ops ++ ops') t' ∧ t.Extends t'

theorem ExtendsLedger.append {ops ops' ops'' : List FileOp} {t t' t'' : Tracker}
    (h : ExtendsLedger ops t ops' t') (h' : ExtendsLedger (ops ++ ops') t' ops'' t'') :
    ExtendsLedger ops t (ops' ++ ops'') t'' := by
  obtain ⟨hcut, -, hext⟩ := h
  obtain ⟨hcut', hall', hext'⟩ := h'
  refine ⟨?_, by rwa [← List.append_assoc], hext.trans hext'⟩
  intro n
  rw [List.take_append]
  rcases le_total n ops'.length with hn | hn
  · rw [Nat.sub_eq_zero_of_le hn, List.take_zero, List.append_nil]
    exact hcut n
  · obtain ⟨t₁, hled, hext₁⟩ := hcut' (n - ops'.length)
    rw [List.take_of_length_le hn, ← List.append_assoc]
    exact ⟨t₁, hled, hext.trans hext₁⟩

theorem Ledger.extends_create {ops : List FileOp} {t : Tracker} (h : Ledger ops t) (s : Store) :
    ExtendsLedger ops t [.create s] t := by
  refine ⟨?_, h.create s, .refl t⟩
  intro n
  cases n with
  | zero => exact ⟨t, by simpa using h, .refl t⟩
  | succ n => exact ⟨t, by simpa using h.create s, .refl t⟩

theorem Ledger.extends_ensure {ops : List FileOp} {t : Tracker} (h : Ledger ops t) (s : Store) :
    ExtendsLedger ops t (ensureOps t s) (t.ensure s) := by
  rw [ensureOps, Tracker.ensure]
  split
  · exact ⟨fun n => ⟨t, by simpa using h, .refl t⟩, by simpa using h, .refl t⟩
  · rename_i hs
    refine ⟨?_, h.add hs, t.extends_add hs⟩
    intro n
    cases n with
    | zero => exact ⟨t, by simpa using h, .refl t⟩
    | succ n => exact ⟨_, by simpa using h.add hs, t.extends_add hs⟩

/-- **Start-up extends a ledger**, wherever it is stopped. -/
theorem Ledger.setup {ops : List FileOp} {t : Tracker} (h : Ledger ops t) :
    ExtendsLedger ops t (setupOps t)
      (((t.ensure .user).ensure .transaction).ensure .account) := by
  have h1 := h.extends_create .idTracker
  have h2 := h1.append (h1.2.1.extends_create .user)
  have h3 := h2.append (h2.2.1.extends_create .account)
  have h4 := h3.append (h3.2.1.extends_create .transaction)
  have h5 := h4.append (h4.2.1.extends_ensure .user)
  have h6 := h5.append (h5.2.1.extends_ensure .transaction)
  have h7 := h6.append (h6.2.1.extends_ensure .account)
  simpa [setupOps] using h7

/-- A whole record extends a ledger. -/
theorem Ledger.record_whole {ops : List FileOp} {t : Tracker} (h : Ledger ops t) {s : Store}
    (hs : s ≠ .idTracker) {n : ℕ} (hn : t.counter s = some n) (hlt : (n : ℤ) < intMax)
    {row : Row} (hrow : row.lookup (lit "id") = some (printNat n)) :
    Ledger (ops ++ recordOps t s row) (t.advance s) := by
  have hrec := (h.record hs hn hlt hrow).create .idTracker
  rwa [List.append_assoc] at hrec

theorem settled_append {ops ops' : List FileOp} (h : settled ops) :
    settled (ops ++ ops') ↔ settled ops' := by
  rw [settled, List.foldl_append, h, settled]

theorem settled_recordOps (t : Tracker) (s : Store) (row : Row) :
    settled (recordOps t s row) := rfl

/-- **A record stopped outside of it** is whole or has not begun. -/
theorem Ledger.record_take {ops : List FileOp} {t : Tracker} (h : Ledger ops t) {s : Store}
    (hs : s ≠ .idTracker) {n : ℕ} (hn : t.counter s = some n) (hlt : (n : ℤ) < intMax)
    {row : Row} (hrow : row.lookup (lit "id") = some (printNat n)) {k : ℕ}
    (hk : settled ((recordOps t s row).take k)) :
    ∃ t₁, Ledger (ops ++ (recordOps t s row).take k) t₁ ∧ (t₁ = t ∨ t₁ = t.advance s) := by
  match k with
  | 0 => exact ⟨t, by simpa using h, Or.inl rfl⟩
  | 1 => exact absurd hk (by simp [settled, recordOps, pendingAfter])
  | 2 => exact absurd hk (by simp [settled, recordOps, replaceOps, pendingAfter])
  | 3 => exact absurd hk (by simp [settled, recordOps, replaceOps, pendingAfter])
  | 4 => exact ⟨_, h.record hs hn hlt hrow, Or.inr rfl⟩
  | k + 5 =>
      have hall : (recordOps t s row).take (k + 5) = recordOps t s row :=
        List.take_of_length_le (by simp [recordOps, replaceOps])
      rw [hall]
      exact ⟨_, h.record_whole hs hn hlt hrow, Or.inr rfl⟩

/-- The rows of users and accounts carry the id they are given. -/
theorem lookup_userRow (id : Bytes) (payload : CreateUserDTO) (pwdHash createdAt : Bytes) :
    (userRow id payload pwdHash createdAt).lookup (lit "id") = some id := by
  simp [userRow]

theorem lookup_accountRow (id userId createdAt : Bytes) :
    (accountRow id userId createdAt).lookup (lit "id") = some id := by
  simp [accountRow]

theorem Tracker.counterD_advance_le (t : Tracker) (s s' : Store) :
    (t.advance s).counterD s' ≤ t.counterD s' + if s' = s then 1 else 0 := by
  rw [Tracker.counterD, Tracker.counterD, Tracker.counter_advance]
  split
  · cases t.counter s' with
    | none => simp
    | some n => simp
  · simp

/-- An advance raises no counter by more than one. -/
theorem Tracker.counterD_advance_le_succ (t : Tracker) (s s' : Store) :
    (t.advance s).counterD s' ≤ t.counterD s' + 1 := by
  have hle := t.counterD_advance_le s s'
  split at hle <;> omega

/-- A list stopped in its first part, or after it. -/
theorem take_append_cases {α : Type*} (l l' : List α) (k : ℕ) :
    (l ++ l').take k = l.take k ∨ ∃ j, (l ++ l').take k = l ++ l'.take j := by
  rw [List.take_append]
  rcases le_total k l.length with hk | hk
  · left
    rw [Nat.sub_eq_zero_of_le hk, List.take_zero, List.append_nil]
  · right
    exact ⟨k - l.length, by rw [List.take_of_length_le hk]⟩

/-- The user's record of a registration, stopped outside of it. -/
theorem Ledger.user_take {ops : List FileOp} {t : Tracker} (h : Ledger ops t) {n : ℕ}
    (hn : t.counter .user = some n) (hlt : (n : ℤ) < intMax) {row : Row}
    (hrow : row.lookup (lit "id") = some (printNat n)) {k : ℕ}
    (hk : settled ((recordOps t .user row).take k)) :
    ∃ t₁, Ledger (ops ++ (recordOps t .user row).take k) t₁ ∧
      ∀ s, t₁.counterD s ≤ t.counterD s + 1 := by
  obtain ⟨t₁, hled, rfl | rfl⟩ := h.record_take (by simp) hn hlt hrow hk
  · exact ⟨_, hled, fun s => by omega⟩
  · exact ⟨_, hled, t.counterD_advance_le_succ .user⟩

/-- The user's record and the operations behind it, stopped outside of a record: whatever holds of
the ledger after the whole record and a part of the rest. -/
theorem Ledger.user_append_take {ops more : List FileOp} {t : Tracker} (h : Ledger ops t) {n : ℕ}
    (hn : t.counter .user = some n) (hlt : (n : ℤ) < intMax) {row : Row}
    (hrow : row.lookup (lit "id") = some (printNat n)) {k : ℕ}
    (hk : settled ((recordOps t .user row ++ more).take k))
    (hmore : ∀ j, settled (more.take j) → Ledger (ops ++ recordOps t .user row) (t.advance .user) →
      ∃ t₁, Ledger (ops ++ recordOps t .user row ++ more.take j) t₁ ∧
        ∀ s, t₁.counterD s ≤ t.counterD s + 1) :
    ∃ t₁, Ledger (ops ++ (recordOps t .user row ++ more).take k) t₁ ∧
      ∀ s, t₁.counterD s ≤ t.counterD s + 1 := by
  rcases take_append_cases (recordOps t .user row) more k with htake | ⟨j, htake⟩
  · rw [htake] at hk ⊢
    exact h.user_take hn hlt hrow hk
  · rw [htake, settled_append (settled_recordOps _ _ _)] at hk
    rw [htake, ← List.append_assoc]
    exact hmore j hk (h.record_whole (by simp) hn hlt hrow)

/-- **Registration extends a ledger** wherever it is stopped outside a record, and raises no
counter by more than one. -/
theorem Ledger.register_take {crypt : Bytes → Bytes} {env : CallEnv} {payload : CreateUserDTO}
    {ops l : List FileOp} {t : Tracker} {r : Option MakeNewUserResponse} (h : Ledger ops t)
    (hlt : ∀ s n, t.counter s = some n → (n : ℤ) < intMax)
    (hl : MakeNewUserSteps crypt env payload t l r) {k : ℕ} (hk : settled (l.take k)) :
    ∃ t₁, Ledger (ops ++ l.take k) t₁ ∧ ∀ s, t₁.counterD s ≤ t.counterD s + 1 := by
  have hstay : ∃ t₁, Ledger (ops ++ ([] : List FileOp).take k) t₁ ∧
      ∀ s, t₁.counterD s ≤ t.counterD s + 1 :=
    ⟨t, by simpa using h, fun s => by omega⟩
  cases hl with
  | rejected hr => exact hstay
  | undefined => exact hstay
  | noAccount hn => exact h.user_take hn (hlt _ _ hn) (lookup_userRow _ _ _ _) hk
  | @halfAccount n a user hn ha =>
      refine h.user_append_take hn (hlt _ _ hn) (lookup_userRow _ _ _ _) hk fun j hj hled => ?_
      cases j with
      | zero =>
          rw [List.take_zero, List.append_nil]
          exact ⟨_, hled, t.counterD_advance_le_succ .user⟩
      | succ j => exact absurd hj (by simp [settled, pendingAfter])
  | @created n a r hn ha hr =>
      refine h.user_append_take hn (hlt _ _ hn) (lookup_userRow _ _ _ _) hk fun j hj hled => ?_
      have hacc : (t.advance .user).counter .account = some a := by
        rw [Tracker.counter_advance, if_neg (by simp), ha]
      obtain ⟨t₁, hled₁, rfl | rfl⟩ := hled.record_take (by simp) hacc (hlt _ _ ha)
        (lookup_accountRow _ _ _) hj
      · exact ⟨_, hled₁, t.counterD_advance_le_succ .user⟩
      · refine ⟨_, hled₁, fun s => ?_⟩
        have h1 := t.counterD_advance_le .user s
        have h2 := (t.advance .user).counterD_advance_le .account s
        cases s <;> simp at h1 h2 <;> omega

end CBank

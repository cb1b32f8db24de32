import CBank.CLib.Memory

/-!
# Printing with a Running Offset

The idiom `offset += snprintf(buf + offset, sizeof(buf) - offset, ...)`, on the buffer itself.
`snprintf` cuts what it prints and ends it with a NUL, and returns the length the text would have
had, so the offset counts what was cut as well. Behind the end of the buffer the size wraps
around, and nothing is defined.

`snprintfs` is what such a sequence leaves as text; here the buffer and the offsets are kept.

## Main results

* `prefix_of_snprintfAll`: the buffer starts with the text, cut, and a NUL.
* `isSome_snprintfAll`, `offset_of_snprintfAll`: where the sequence is defined, and its offset.
* `lt_of_mem_storedAll`, `getElem?_of_not_mem_storedAll`: which bytes of the buffer it changes.
* `snprintfs_eq_snprintfAll`: the text of the sequence.
-/

namespace CLib

/-- A buffer, and how much was printed into it. -/
structure Printer where
  buf : Bytes
  offset : ℕ
  deriving DecidableEq

/-- `offset += snprintf(buf + offset, sizeof(buf) - offset, "%s", piece)`. -/
def snprintfAt (p : Printer) (piece : Bytes) : Option Printer :=
  if p.offset < p.buf.length then
    (strcpy p.buf p.offset (piece.take (p.buf.length - p.offset - 1))).map fun buf =>
      ⟨buf, p.offset + piece.length⟩
  -- a size of 0 prints nothing
  else if p.offset = p.buf.length then some ⟨p.buf, p.offset + piece.length⟩
  else none

/-- One piece after the other: the offsets on the way, and what is left. -/
def snprintfAll : List Bytes → Printer → List ℕ × Option Printer
  | [], p => ([], some p)
  | piece :: pieces, p => match snprintfAt p piece with
    | none => ([], none)
    | some p' => (p'.offset :: (snprintfAll pieces p').1, (snprintfAll pieces p').2)

/-- The indices `snprintfAt` stores at: those of the piece, cut, and that of its NUL. -/
def storedAt (p : Printer) (piece : Bytes) : List ℕ :=
  if p.offset < p.buf.length then
    List.range' p.offset ((piece.take (p.buf.length - p.offset - 1)).length + 1)
  else []

/-- The indices `snprintfAll` stores at. -/
def storedAll : List Bytes → Printer → List ℕ
  | [], _ => []
  | piece :: pieces, p => storedAt p piece ++ match snprintfAt p piece with
    | none => []
    | some p' => storedAll pieces p'

variable {p p' : Printer} {piece : Bytes} {pieces : List Bytes}

/-! ### One piece -/

theorem isSome_snprintfAt_iff : (snprintfAt p piece).isSome ↔ p.offset ≤ p.buf.length := by
  rw [snprintfAt]
  split
  · rename_i hlt
    have hfits : p.offset + (piece.take (p.buf.length - p.offset - 1)).length < p.buf.length := by
      rw [List.length_take]
      omega
    obtain ⟨buf, hbuf⟩ := strcpy_of_fits hfits
    rw [hbuf]
    exact iff_of_true rfl hlt.le
  · split
    · rename_i heq
      exact iff_of_true rfl heq.le
    · exact iff_of_false (by simp) (by omega)

theorem snprintfAt_sizes (h : snprintfAt p piece = some p') :
    p'.offset = p.offset + piece.length ∧ p'.buf.length = p.buf.length := by
  rw [snprintfAt] at h
  split at h
  · obtain ⟨buf, hbuf, rfl⟩ := Option.map_eq_some_iff.mp h
    exact ⟨rfl, length_strcpy hbuf⟩
  · split at h
    · obtain rfl := Option.some.inj h
      exact ⟨rfl, rfl⟩
    · simp at h

/-- The buffer starts with the text that was printed, cut if it is too long, and its NUL. -/
def Printer.Holds (p : Printer) (text : Bytes) : Prop :=
  p.offset = text.length ∧ text.take (p.buf.length - 1) ++ [0] <+: p.buf

/-- **One more piece.** The first one needs no text before it. -/
theorem Printer.Holds.snprintfAt {text : Bytes} (hpos : 0 < p.buf.length)
    (htext : (p.offset = 0 ∧ text = []) ∨ p.Holds text)
    (h : snprintfAt p piece = some p') : p'.Holds (text ++ piece) := by
  obtain ⟨hoffset, hsize⟩ := snprintfAt_sizes h
  have hlen : p.offset = text.length := by
    rcases htext with ⟨hzero, rfl⟩ | hholds
    · exact hzero
    · exact hholds.1
  refine ⟨by rw [hoffset, hlen, List.length_append], ?_⟩
  rw [hsize]
  rw [CLib.snprintfAt] at h
  split at h
  · rename_i hlt
    have hstart : p.buf.take p.offset = text := by
      rcases htext with ⟨hzero, rfl⟩ | ⟨-, hholds⟩
      · rw [hzero, List.take_zero]
      · rw [List.take_of_length_le (by omega)] at hholds
        rw [hlen, ← List.prefix_iff_eq_take.mp ((List.prefix_append text [0]).trans hholds)]
    obtain ⟨buf, hbuf, rfl⟩ := Option.map_eq_some_iff.mp h
    rw [strcpy, if_pos (by rw [List.length_take]; omega), hstart, Option.some.injEq] at hbuf
    have hcut : (text ++ piece).take (p.buf.length - 1) =
        text ++ piece.take (p.buf.length - p.offset - 1) := by
      rw [List.take_append, List.take_of_length_le (by omega), hlen, Nat.sub_right_comm]
    change _ <+: buf
    rw [hcut, ← hbuf]
    exact ⟨_, by rw [List.append_assoc, List.append_assoc, List.singleton_append]⟩
  · split at h
    · rename_i hlt heq
      obtain rfl := Option.some.inj h
      rcases htext with ⟨hzero, rfl⟩ | ⟨-, hholds⟩
      · omega
      · rw [List.take_append_of_le_length (by omega)]
        exact hholds
    · simp at h

/-! ### One piece after the other -/

/-- The offset counts every piece. Induction along the pieces. -/
theorem offset_of_snprintfAll (h : (snprintfAll pieces p).2 = some p') :
    p'.offset = p.offset + pieces.flatten.length ∧ p'.buf.length = p.buf.length := by
  induction pieces generalizing p with
  | nil =>
      obtain rfl := Option.some.inj h
      exact ⟨rfl, rfl⟩
  | cons piece pieces ih =>
      rw [snprintfAll] at h
      split at h
      · simp at h
      · rename_i q hq
        obtain ⟨hoffset, hsize⟩ := snprintfAt_sizes hq
        obtain ⟨hoffset', hsize'⟩ := ih h
        rw [List.flatten_cons, List.length_append]
        exact ⟨by omega, hsize'.trans hsize⟩

/-- No offset on the way is more than the length of the text. -/
theorem le_of_mem_snprintfAll {o : ℕ} (h : o ∈ (snprintfAll pieces p).1) :
    o ≤ p.offset + pieces.flatten.length := by
  induction pieces generalizing p with
  | nil => simp [snprintfAll] at h
  | cons piece pieces ih =>
      rw [snprintfAll] at h
      rw [List.flatten_cons, List.length_append]
      split at h
      · simp at h
      · rename_i q hq
        have hoffset := (snprintfAt_sizes hq).1
        rcases List.mem_cons.mp h with rfl | h
        · omega
        · have := ih h
          omega

/-- The last offset on the way is what is left. -/
theorem offset_mem_snprintfAll (hne : pieces ≠ []) (h : (snprintfAll pieces p).2 = some p') :
    p'.offset ∈ (snprintfAll pieces p).1 := by
  induction pieces generalizing p with
  | nil => exact absurd rfl hne
  | cons piece pieces ih =>
      rw [snprintfAll] at h ⊢
      split at h
      · simp at h
      · rename_i q hq
        rcases eq_or_ne pieces [] with rfl | hmore
        · obtain rfl := Option.some.inj h
          exact List.mem_cons_self
        · exact List.mem_cons_of_mem _ (ih hmore h)

/-- **Where printing is defined**: a text that fits the buffer, with no room for its NUL at
worst. -/
theorem isSome_snprintfAll (h : p.offset + pieces.flatten.length ≤ p.buf.length) :
    ∃ p', (snprintfAll pieces p).2 = some p' := by
  induction pieces generalizing p with
  | nil => exact ⟨p, rfl⟩
  | cons piece pieces ih =>
      rw [List.flatten_cons, List.length_append] at h
      have hsome : (snprintfAt p piece).isSome := isSome_snprintfAt_iff.mpr (by omega)
      obtain ⟨q, hq⟩ := Option.isSome_iff_exists.mp hsome
      obtain ⟨hoffset, hsize⟩ := snprintfAt_sizes hq
      rw [snprintfAll, hq]
      exact ih (by omega)

/-- **What the buffer holds in the end.** -/
theorem holds_of_snprintfAll {text : Bytes} (hpos : 0 < p.buf.length) (htext : p.Holds text)
    (h : (snprintfAll pieces p).2 = some p') : p'.Holds (text ++ pieces.flatten) := by
  induction pieces generalizing p text with
  | nil =>
      obtain rfl := Option.some.inj h
      rwa [List.flatten_nil, List.append_nil]
  | cons piece pieces ih =>
      rw [snprintfAll] at h
      split at h
      · simp at h
      · rename_i q hq
        rw [List.flatten_cons, ← List.append_assoc]
        exact ih ((snprintfAt_sizes hq).2 ▸ hpos)
          (Printer.Holds.snprintfAt hpos (Or.inr htext) hq) h

/-- **A buffer that is printed into from its start.** -/
theorem prefix_of_snprintfAll {buf : Bytes} (hpos : 0 < buf.length) (hne : pieces ≠ [])
    (h : (snprintfAll pieces ⟨buf, 0⟩).2 = some p') : p'.Holds pieces.flatten := by
  obtain ⟨piece, pieces, rfl⟩ := List.exists_cons_of_ne_nil hne
  rw [snprintfAll] at h
  split at h
  · simp at h
  · rename_i q hq
    have hfirst : q.Holds ([] ++ piece) :=
      Printer.Holds.snprintfAt hpos (Or.inl ⟨rfl, rfl⟩) hq
    rw [List.flatten_cons]
    exact holds_of_snprintfAll ((snprintfAt_sizes hq).2 ▸ hpos) hfirst h

/-! ### The indices -/

theorem lt_of_mem_storedAt {i : ℕ} (h : i ∈ storedAt p piece) : i < p.buf.length := by
  rw [storedAt] at h
  split at h
  · rw [List.mem_range'_1, List.length_take] at h
    omega
  · simp at h

/-- **Printing stays inside the buffer.** Induction along the pieces. -/
theorem lt_of_mem_storedAll {i : ℕ} (h : i ∈ storedAll pieces p) : i < p.buf.length := by
  induction pieces generalizing p with
  | nil => simp [storedAll] at h
  | cons piece pieces ih =>
      rcases List.mem_append.mp h with h | h
      · exact lt_of_mem_storedAt h
      · split at h
        · simp at h
        · rename_i q hq
          rw [← (snprintfAt_sizes hq).2]
          exact ih h

theorem getElem?_of_not_mem_storedAt (h : snprintfAt p piece = some p') {i : ℕ}
    (hi : i ∉ storedAt p piece) : p'.buf[i]? = p.buf[i]? := by
  rw [snprintfAt] at h
  rw [storedAt] at hi
  split at h
  · rename_i hlt
    obtain ⟨buf, hbuf, rfl⟩ := Option.map_eq_some_iff.mp h
    rw [if_pos hlt, List.mem_range'_1] at hi
    rw [getElem?_strcpy hbuf, if_neg (by omega)]
  · split at h
    · obtain rfl := Option.some.inj h
      rfl
    · simp at h

/-- **The rest of the buffer** stays as it was. Induction along the pieces. -/
theorem getElem?_of_not_mem_storedAll (h : (snprintfAll pieces p).2 = some p') {i : ℕ}
    (hi : i ∉ storedAll pieces p) : p'.buf[i]? = p.buf[i]? := by
  induction pieces generalizing p with
  | nil =>
      obtain rfl := Option.some.inj h
      rfl
  | cons piece pieces ih =>
      rw [snprintfAll] at h
      rw [storedAll, List.mem_append, not_or] at hi
      split at h
      · simp at h
      · rename_i q hq
        rw [hq] at hi
        exact (ih h hi.2).trans (getElem?_of_not_mem_storedAt hq hi.1)

/-- The bytes before the offset, when the text and no NUL fit the buffer: the last one was cut. -/
theorem Printer.Holds.take_offset {text : Bytes} (h : p.Holds text) (hpos : 0 < p.buf.length)
    (hlen : text.length ≤ p.buf.length) :
    p.buf.take p.offset = (text.take (p.buf.length - 1) ++ [0]).take text.length := by
  obtain ⟨hoffset, rest, hrest⟩ := h
  have hle : text.length ≤ (text.take (p.buf.length - 1) ++ [0]).length := by
    rw [List.length_append, List.length_take, List.length_singleton]
    omega
  rw [hoffset]
  conv_lhs => rw [← hrest]
  exact List.take_append_of_le_length hle

/-- What was printed is defined in both descriptions at once. Induction along the pieces. -/
theorem foldlM_snprintfStep {text : Bytes} (hlen : p.offset = text.length) :
    pieces.foldlM (snprintfStep p.buf.length) text =
      (snprintfAll pieces p).2.map fun _ => text ++ pieces.flatten := by
  induction pieces generalizing p text with
  | nil => simp [snprintfAll]
  | cons piece pieces ih =>
      rw [List.foldlM_cons, snprintfStep, snprintfAll]
      by_cases hle : text.length ≤ p.buf.length
      · have hsome : (snprintfAt p piece).isSome := isSome_snprintfAt_iff.mpr (by omega)
        obtain ⟨q, hq⟩ := Option.isSome_iff_exists.mp hsome
        obtain ⟨hoffset, hsize⟩ := snprintfAt_sizes hq
        have hmore : pieces.foldlM (snprintfStep q.buf.length) (text ++ piece) =
            (snprintfAll pieces q).2.map fun _ => text ++ piece ++ pieces.flatten :=
          ih (by rw [hoffset, hlen, List.length_append])
        rw [hsize] at hmore
        rw [if_pos hle, hq, Option.bind_eq_bind, Option.bind_some, hmore, List.flatten_cons,
          List.append_assoc]
      · have hnone : snprintfAt p piece = none := by
          rw [← Option.not_isSome_iff_eq_none, isSome_snprintfAt_iff]
          omega
        rw [if_neg hle, hnone]
        rfl

/-- **The text of the sequence** is the string at the start of the buffer. -/
theorem snprintfs_eq_snprintfAll {buf : Bytes} (hpos : 0 < buf.length) (pieces : List Bytes) :
    snprintfs buf.length pieces = (snprintfAll pieces ⟨buf, 0⟩).2.map fun p =>
      p.buf.take (min p.offset (buf.length - 1)) := by
  have hfold : pieces.foldlM (snprintfStep buf.length) [] =
      (snprintfAll pieces ⟨buf, 0⟩).2.map fun _ => [] ++ pieces.flatten :=
    foldlM_snprintfStep (p := ⟨buf, 0⟩) rfl
  rw [snprintfs, hfold, Option.map_map]
  cases hrun : (snprintfAll pieces ⟨buf, 0⟩).2 with
  | none => rfl
  | some p' =>
      cases pieces with
      | nil =>
          obtain rfl := Option.some.inj hrun
          simp
      | cons piece pieces =>
          obtain ⟨hoffset, hstarts⟩ := prefix_of_snprintfAll hpos (List.cons_ne_nil _ _) hrun
          rw [(offset_of_snprintfAll hrun).2] at hstarts
          have htext := List.prefix_iff_eq_take.mp ((List.prefix_append _ [0]).trans hstarts)
          rw [List.length_take, Nat.min_comm] at htext
          simp only [Option.map_some, Function.comp_apply, List.nil_append, hoffset, htext]

end CLib

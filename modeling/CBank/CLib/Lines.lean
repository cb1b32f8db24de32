import CBank.CLib.Text

/-!
# Reading a File Line by Line

The loop `while (fgets(buf, size, f))` over a file given as a list. One `fgets` takes at
most `size - 1` elements and stops after a newline (`fgets`); the loop cuts the whole file
into such chunks (`fgetsLines`). A chunk is a line only when the line fits the buffer: a
longer line comes back in several chunks.

## Main results

* `fgetsLines_eq_fgets`: the chunks are those successive `fgets` calls return.
* `fgetsLines_append`: a file that is empty or ends in a newline is read as before when
  text is appended to it.
* `fgetsLines_line`: a newline-free text that fits the buffer with its newline is one
  chunk.
* `one_lt_length_fgetsLines`: one that does not fit is at least two.
* `textLines_append_cons`, `textLines_of_free`: the lines of a text, whatever buffer reads it.
-/

namespace CLib

variable {α : Type*}

/-- A file is empty or ends in a newline. -/
def EndsInNewline (nl : α) (s : List α) : Prop := s = [] ∨ ∃ a, s = a ++ [nl]

theorem EndsInNewline.append {nl : α} {s : List α} (t : List α) :
    EndsInNewline nl (s ++ (t ++ [nl])) :=
  Or.inr ⟨s ++ t, by simp⟩

variable [DecidableEq α]

/-- What is read of `s` when `room` elements still fit: up to and including the first
`nl`, at most `room` elements; and what stays unread. -/
def readLine (nl : α) : ℕ → List α → List α × List α
  | 0, s => ([], s)
  | _ + 1, [] => ([], [])
  | room + 1, c :: s =>
      if c = nl then ([c], s)
      else
        let r := readLine nl room s
        (c :: r.1, r.2)

/-- `fgets(buf, size, f)` on the unread part `s` of the file: the chunk read and the rest;
`none` at the end of the file. -/
def fgets (nl : α) (size : ℕ) (s : List α) : Option (List α × List α) :=
  if s = [] then none else some (readLine nl (size - 1) s)

/-- The chunks of a file when `room` elements still fit the current chunk and every later
one holds `cap`. -/
def chunks (nl : α) (cap : ℕ) : ℕ → List α → List (List α)
  | _, [] => []
  | room, c :: s =>
      if c = nl ∨ room ≤ 1 then [c] :: chunks nl cap cap s
      else
        match chunks nl cap (room - 1) s with
        | [] => [[c]]
        | l :: ls => (c :: l) :: ls

/-- The chunks the loop `while (fgets(buf, size, f))` goes through. -/
def fgetsLines (nl : α) (size : ℕ) (s : List α) : List (List α) :=
  chunks nl (size - 1) (size - 1) s

@[simp] theorem fgetsLines_nil (nl : α) (size : ℕ) : fgetsLines nl size [] = [] := rfl

theorem chunks_cons_end {nl : α} {cap room : ℕ} {c : α} (h : c = nl ∨ room ≤ 1)
    (s : List α) : chunks nl cap room (c :: s) = [c] :: chunks nl cap cap s := by
  simp [chunks, h]

theorem chunks_ne_nil (nl : α) (cap room : ℕ) {s : List α} (hs : s ≠ []) :
    chunks nl cap room s ≠ [] := by
  obtain ⟨c, s, rfl⟩ := List.exists_cons_of_ne_nil hs
  rw [chunks]
  split
  · simp
  · split <;> simp

theorem chunks_eq_readLine {nl : α} {cap room : ℕ} (hroom : 0 < room) {s : List α}
    (hs : s ≠ []) :
    chunks nl cap room s =
      (readLine nl room s).1 :: chunks nl cap cap (readLine nl room s).2 := by
  induction s generalizing room with
  | nil => exact absurd rfl hs
  | cons c s ih =>
      obtain ⟨room, rfl⟩ : ∃ r, room = r + 1 := ⟨room - 1, by omega⟩
      by_cases hc : c = nl
      · simp [chunks, readLine, hc]
      · rcases Nat.eq_zero_or_pos room with rfl | hpos
        · simp [chunks, readLine, hc]
        · have hroom1 : ¬ room + 1 ≤ 1 := by omega
          rcases eq_or_ne s [] with rfl | hs
          · obtain ⟨r, rfl⟩ : ∃ r, room = r + 1 := ⟨room - 1, by omega⟩
            simp [chunks, readLine, hc]
          · simp [chunks, readLine, hc, hroom1, ih hpos hs]

/-- **The loop iterates `fgets`.** -/
theorem fgetsLines_eq_fgets {nl : α} {size : ℕ} (hsize : 1 < size) (s : List α) :
    fgetsLines nl size s = match fgets nl size s with
      | none => []
      | some (l, rest) => l :: fgetsLines nl size rest := by
  rcases eq_or_ne s [] with rfl | hs
  · simp [fgets]
  · simp only [fgets, hs, if_false]
    exact chunks_eq_readLine (by omega) hs

/-- A chunk is no longer than the room for it. Induction along the text. -/
theorem length_of_chunks_eq_cons {nl : α} {cap room : ℕ} (hcap : 0 < cap) {s l : List α}
    {ls : List (List α)} (h : chunks nl cap room s = l :: ls) :
    l.length ≤ max room 1 ∧ ∀ l' ∈ ls, l'.length ≤ cap := by
  induction s generalizing room l ls with
  | nil => simp [chunks] at h
  | cons c s ih =>
      by_cases hend : c = nl ∨ room ≤ 1
      · rw [chunks_cons_end hend, List.cons.injEq] at h
        obtain ⟨rfl, rfl⟩ := h
        refine ⟨le_max_right _ _, fun l' hl' => ?_⟩
        obtain ⟨first, rest, hrest⟩ := List.exists_cons_of_ne_nil (List.ne_nil_of_mem hl')
        obtain ⟨hfirst, hmore⟩ := ih hrest
        rw [hrest] at hl'
        rcases List.mem_cons.mp hl' with rfl | hl'
        · rwa [Nat.max_eq_left hcap] at hfirst
        · exact hmore l' hl'
      · simp only [chunks, if_neg hend] at h
        split at h
        · obtain ⟨rfl, rfl⟩ := List.cons.inj h
          exact ⟨le_max_right _ _, by simp⟩
        · rename_i first rest hrest
          obtain ⟨rfl, rfl⟩ := List.cons.inj h
          obtain ⟨hfirst, hmore⟩ := ih hrest
          refine ⟨?_, hmore⟩
          rw [List.length_cons]
          omega

/-- A chunk fits the buffer. -/
theorem length_lt_of_mem_fgetsLines {nl : α} {size : ℕ} (hsize : 1 < size) {s l : List α}
    (h : l ∈ fgetsLines nl size s) : l.length < size := by
  obtain ⟨first, rest, hrest⟩ := List.exists_cons_of_ne_nil (List.ne_nil_of_mem h)
  obtain ⟨hfirst, hmore⟩ := length_of_chunks_eq_cons (by omega) hrest
  rw [hrest] at h
  rcases List.mem_cons.mp h with rfl | h
  · omega
  · have hle := hmore l h
    omega

/-- The chunks together are the file. -/
theorem flatten_chunks (nl : α) (cap room : ℕ) (s : List α) :
    (chunks nl cap room s).flatten = s := by
  induction s generalizing room with
  | nil => rfl
  | cons c s ih =>
      rw [chunks]
      split
      · rw [List.flatten_cons, ih, List.singleton_append]
      · have hrest := ih (room - 1)
        split
        · rename_i hnil
          rw [hnil] at hrest
          simp [← hrest]
        · rename_i l ls hcons
          rw [hcons, List.flatten_cons] at hrest
          rw [List.flatten_cons, List.cons_append, hrest]

theorem flatten_fgetsLines (nl : α) (size : ℕ) (s : List α) :
    (fgetsLines nl size s).flatten = s := flatten_chunks nl (size - 1) (size - 1) s

/-- A text without newlines that fills the buffer is read in a first chunk of its size. -/
theorem fgetsLines_of_long {nl : α} {size : ℕ} {a : List α} (ha : nl ∉ a) (hsize : 1 < size)
    (hlong : size ≤ a.length + 1) (t : List α) :
    fgetsLines nl size (a ++ t) =
      a.take (size - 1) :: fgetsLines nl size (a.drop (size - 1) ++ t) := by
  have hread : ∀ (room : ℕ) (a : List α), nl ∉ a → room ≤ a.length →
      readLine nl room (a ++ t) = (a.take room, a.drop room ++ t) := by
    intro room
    induction room with
    | zero => simp [readLine]
    | succ room ih =>
        intro a ha hlen
        obtain ⟨c, a, rfl⟩ := List.exists_cons_of_length_pos (by omega : 0 < a.length)
        have hc : c ≠ nl := fun h => ha (h ▸ List.mem_cons_self)
        rw [List.length_cons] at hlen
        simp [readLine, hc, ih a (fun h => ha (List.mem_cons_of_mem _ h)) (by omega)]
  have hne : a ++ t ≠ [] := List.append_ne_nil_of_left_ne_nil
    (List.ne_nil_of_length_pos (by omega)) _
  rw [fgetsLines_eq_fgets hsize, fgets, if_neg hne, hread _ _ ha (by omega)]

/-! ### Appending to a file -/

theorem chunks_append (nl : α) (cap room : ℕ) (a b : List α) :
    chunks nl cap room (a ++ nl :: b) =
      chunks nl cap room (a ++ [nl]) ++ chunks nl cap cap b := by
  induction a generalizing room with
  | nil => simp [chunks]
  | cons c a ih =>
      by_cases hc : c = nl ∨ room ≤ 1
      · rw [List.cons_append, chunks_cons_end hc, List.cons_append, chunks_cons_end hc,
          ih, List.cons_append]
      · obtain ⟨l, ls, hl⟩ := List.exists_cons_of_ne_nil
          (chunks_ne_nil nl cap (room - 1) (List.concat_ne_nil nl a))
        simp [chunks, hc, ih, hl]

/-- **Appending adds chunks only**: the part that was there is cut as before. -/
theorem fgetsLines_append {nl : α} {s : List α} (hs : EndsInNewline nl s) (size : ℕ)
    (t : List α) : fgetsLines nl size (s ++ t) = fgetsLines nl size s ++ fgetsLines nl size t := by
  rcases hs with rfl | ⟨a, rfl⟩
  · simp
  · rw [fgetsLines, List.append_assoc, List.singleton_append, chunks_append]
    rfl

/-! ### One line -/

theorem chunks_line {nl : α} {cap room : ℕ} {a : List α} (ha : nl ∉ a)
    (hroom : a.length < room) : chunks nl cap room (a ++ [nl]) = [a ++ [nl]] := by
  induction a generalizing room with
  | nil => simp [chunks]
  | cons c a ih =>
      simp only [List.mem_cons, not_or, List.length_cons] at ha hroom
      have hc : ¬ (c = nl ∨ room ≤ 1) := by
        rintro (h | h)
        · exact ha.1 h.symm
        · omega
      simp [chunks, hc, ih ha.2 (by omega : a.length < room - 1)]

/-- A newline-free text that fits the buffer with its newline is read in one chunk. -/
theorem fgetsLines_line {nl : α} {size : ℕ} {a : List α} (ha : nl ∉ a)
    (hsize : a.length + 1 < size) : fgetsLines nl size (a ++ [nl]) = [a ++ [nl]] :=
  chunks_line ha (by omega)

theorem one_lt_length_chunks {nl : α} {cap room : ℕ} {a : List α} (ha : nl ∉ a)
    (hroom : 0 < room) (hlong : room ≤ a.length) :
    1 < (chunks nl cap room (a ++ [nl])).length := by
  induction a generalizing room with
  | nil => simp only [List.length_nil] at hlong; omega
  | cons c a ih =>
      simp only [List.mem_cons, not_or, List.length_cons] at ha hlong
      rcases Nat.lt_or_ge 1 room with h1 | h1
      · have hc : ¬ (c = nl ∨ room ≤ 1) := by
          rintro (h | h)
          · exact ha.1 h.symm
          · omega
        have hlen := ih ha.2 (by omega : 0 < room - 1) (by omega)
        obtain ⟨l, ls, hl⟩ := List.exists_cons_of_ne_nil
          (chunks_ne_nil nl cap (room - 1) (List.concat_ne_nil nl a))
        rw [hl] at hlen
        simpa [chunks, hc, hl] using hlen
      · rw [List.cons_append, chunks_cons_end (Or.inr h1), List.length_cons]
        have := List.length_pos_of_ne_nil
          (chunks_ne_nil nl cap cap (List.concat_ne_nil nl a))
        omega

/-- A newline-free text that does not fit the buffer comes back in at least two chunks. -/
theorem one_lt_length_fgetsLines {nl : α} {size : ℕ} {a : List α} (ha : nl ∉ a)
    (hsize : 1 < size) (hlong : size ≤ a.length + 1) :
    1 < (fgetsLines nl size (a ++ [nl])).length :=
  one_lt_length_chunks ha (by omega) (by omega)

/-! ### The lines of a text -/

/-- The lines of a text; what follows the last `nl` is a line when it is not empty. -/
def textLines (nl : α) (s : List α) : List (List α) :=
  if (s.splitOn nl).getLast? = some [] then (s.splitOn nl).dropLast else s.splitOn nl

/-- The first line of a text that holds a newline. -/
theorem textLines_append_cons {nl : α} {a : List α} (ha : nl ∉ a) (b : List α) :
    textLines nl (a ++ nl :: b) = a :: textLines nl b := by
  obtain ⟨l, ls, hls⟩ := List.exists_cons_of_ne_nil (List.splitOn_ne_nil nl b)
  have hsplit : (a ++ nl :: b).splitOn nl = a :: b.splitOn nl :=
    List.splitOn_append_cons_self_of_not_mem ha b
  have hlast : (a :: b.splitOn nl).getLast? = (b.splitOn nl).getLast? := by
    rw [hls, List.getLast?_cons_cons]
  have hdrop : (a :: b.splitOn nl).dropLast = a :: (b.splitOn nl).dropLast := by
    rw [hls, List.dropLast_cons_cons]
  rw [textLines, hsplit, hlast, hdrop, textLines]
  split <;> rfl

/-- A text without newlines is one line, if it is anything. -/
theorem textLines_of_free {nl : α} {a : List α} (ha : nl ∉ a) :
    textLines nl a = if a = [] then [] else [a] := by
  rw [textLines, List.splitOn_eq_singleton ha]
  by_cases hnil : a = []
  · simp [hnil]
  · simp [hnil]

/-- A text that is not empty has a first line, and the others are those of what follows it. -/
theorem exists_first_line (nl : α) {s : List α} (hs : s ≠ []) :
    ∃ line tail, s = line ++ tail ∧ nl ∉ line ∧
      (tail = [] ∧ line ≠ [] ∨ tail.head? = some nl) ∧
      textLines nl s = line :: textLines nl tail.tail := by
  by_cases hnl : nl ∈ s
  · obtain ⟨line, rest, rfl, hline⟩ := List.eq_append_cons_of_mem hnl
    exact ⟨line, nl :: rest, rfl, hline, Or.inr rfl, textLines_append_cons hline rest⟩
  · refine ⟨s, [], (List.append_nil s).symm, hnl, Or.inl ⟨rfl, hs⟩, ?_⟩
    rw [textLines_of_free hnl, if_neg hs]
    rfl

/-- A line is no longer than the text. -/
theorem length_le_of_mem_textLines {nl : α} {s l : List α} (h : l ∈ textLines nl s) :
    l.length ≤ s.length := by
  induction hlen : s.length using Nat.strong_induction_on generalizing s with
  | _ k ih =>
      rcases eq_or_ne s [] with rfl | hs
      · simp [textLines] at h
      · obtain ⟨line, tail, rfl, -, htail, hlines⟩ := exists_first_line nl hs
        rw [List.length_append] at hlen
        rw [hlines] at h
        rcases List.mem_cons.mp h with rfl | h
        · omega
        · rcases htail with ⟨rfl, -⟩ | hhead
          · simp [textLines] at h
          · have hpos : 0 < tail.length := List.length_pos_of_ne_nil (by rintro rfl; simp at hhead)
            have := ih tail.tail.length (by rw [List.length_tail]; omega) h rfl
            rw [List.length_tail] at this
            omega

/-- The first line is what comes before the first newline. -/
theorem head?_textLines {nl : α} {s : List α} (hs : s ≠ []) :
    (textLines nl s).head? = some (s.takeWhile (· ≠ nl)) := by
  by_cases hnl : nl ∈ s
  · obtain ⟨a, b, rfl, ha⟩ := List.eq_append_cons_of_mem hnl
    rw [textLines_append_cons ha, takeWhile_ne_append ha]
    simp
  · have hall : s.takeWhile (· ≠ nl) = s := by
      rw [List.takeWhile_eq_self_iff]
      intro x hx
      simpa using ne_of_mem_of_not_mem hx hnl
    rw [textLines_of_free hnl, if_neg hs, hall]
    rfl

theorem mem_of_mem_splitOn {nl : α} {s l : List α} (h : l ∈ s.splitOn nl) {x : α}
    (hx : x ∈ l) : x ∈ s := by
  induction s generalizing l with
  | nil =>
      rw [List.splitOn_nil, List.mem_singleton] at h
      exact absurd hx (h ▸ List.not_mem_nil)
  | cons y s ih =>
      rw [List.splitOn_cons_eq_if_modifyHead] at h
      split at h
      · rcases List.mem_cons.mp h with rfl | h
        · exact absurd hx List.not_mem_nil
        · exact List.mem_cons_of_mem _ (ih h hx)
      · obtain ⟨first, rest, hrest⟩ := List.exists_cons_of_ne_nil (List.splitOn_ne_nil nl s)
        rw [hrest, List.modifyHead_cons] at h
        rcases List.mem_cons.mp h with rfl | h
        · rcases List.mem_cons.mp hx with rfl | hx
          · exact List.mem_cons_self
          · exact List.mem_cons_of_mem _ (ih (hrest ▸ List.mem_cons_self) hx)
        · exact List.mem_cons_of_mem _ (ih (hrest ▸ List.mem_cons_of_mem _ h) hx)

/-- A line holds nothing the text does not. -/
theorem mem_of_mem_textLines {nl : α} {s l : List α} (h : l ∈ textLines nl s) {x : α}
    (hx : x ∈ l) : x ∈ s := by
  suffices hmem : l ∈ s.splitOn nl from mem_of_mem_splitOn hmem hx
  rw [textLines] at h
  split at h
  · exact List.dropLast_subset _ h
  · exact h

end CLib

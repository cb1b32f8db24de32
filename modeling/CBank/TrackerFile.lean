import CBank.IdTracker

/-!
# Tracker Files with Other Lines

`updt_next_identity` goes through every line of the tracker file. A line with both keys is written
anew and closed by a newline; any other line is written back as it was read, and its newline was
cut off before. So a line of other text runs into the next line, and what is kept of a file depends
on where such lines stand. The number of a counter is looked for behind the first `cur_id=` of its
line, which may stand in the name.

## Main results

* `updtLine_counter`, `updtLine_other`: what is written for a line.
* `forall₂_pieces_iff`: the lines of the new file, by induction along the old one.
* `keepsLines_iff`: which tracker files keep their lines.
-/

namespace CBank

open CLib

/-! ### The lines of a tracker file -/

/-- A line of a tracker file: a counter, with a semicolon at its end or not, or other text. -/
inductive TrackerLine
  | counter (name : Bytes) (n : ℕ) (closed : Bool)
  | other (text : Bytes)
  deriving DecidableEq

/-- The text of a line, without its newline. -/
def TrackerLine.text : TrackerLine → Bytes
  | .counter name n closed => storeKey ++ (name ++ ch ';' :: (curIdKey ++ (printNat n ++
      if closed then [ch ';'] else [])))
  | .other text => text

/-- A counter has a short name and can be raised; other text lacks a key. -/
def TrackerLine.Form : TrackerLine → Prop
  | .counter name n _ => 1 ≤ name.length ∧ name.length ≤ 49 ∧ ch ';' ∉ name ∧ (n : ℤ) < intMax
  | .other text => ¬ (storeKey <:+: text ∧ curIdKey <:+: text)

instance (l : TrackerLine) : Decidable l.Form :=
  match l with
  | .counter _ _ _ => inferInstanceAs (Decidable (_ ∧ _ ∧ _ ∧ _))
  | .other _ => inferInstanceAs (Decidable (¬ (_ ∧ _)))

/-- The name of a counter. -/
def TrackerLine.name? : TrackerLine → Option Bytes
  | .counter name _ _ => some name
  | .other _ => none

/-- A tracker file: short lines, counters of distinct names among them. -/
structure TrackerFile where
  lines : List TrackerLine
  form : ∀ l ∈ lines, l.Form
  short : ∀ l ∈ lines, newline ∉ l.text ∧ l.text.length ≤ 254
  distinct : (lines.filterMap TrackerLine.name?).Nodup

/-- The text of the file. -/
def TrackerFile.text (f : TrackerFile) : Bytes := linesText (f.lines.map TrackerLine.text)

/-- What a line may become when `s` is advanced. -/
def TrackerLine.Advanced (s : Store) : TrackerLine → Bytes → Prop
  | .counter name n closed, line => ∃ closed', (closed = true → closed' = true) ∧
      line = (TrackerLine.counter name (if name = s.storeName then n + 1 else n) closed').text
  | .other text, line => line = text

/-- After `s` was advanced, the file has the same lines in the same order. -/
def KeepsLines (f : TrackerFile) (s : Store) (d : Disk) : Prop :=
  (updtNextIdentity s).result d = some () ∧
    ∃ text, ((updtNextIdentity s).after d).table .idTracker = some text ∧
      List.Forall₂ (TrackerLine.Advanced s) f.lines (textLines newline text)

/-! ### The files that keep their lines -/

/-- Where the name holds a `cur_id=` itself, the number after it is the counter's. -/
def NameAgrees (name : Bytes) (n : ℕ) : Prop :=
  ∀ token, strstr curIdKey name = some token →
    (scanInt (token.drop curIdKey.length)).getD 0 = (n : ℤ)

/-- Only the last line is other text, and then it is not empty; no name hides a number. -/
def LinesAgree : List TrackerLine → Prop
  | [] => True
  | .counter name n _ :: lines => NameAgrees name n ∧ LinesAgree lines
  | [.other text] => text ≠ []
  | .other _ :: _ :: _ => False

/-- Besides, the lines are C strings. -/
def TrackerFile.Agrees (f : TrackerFile) : Prop :=
  (∀ l ∈ f.lines, NulFree l.text) ∧ LinesAgree f.lines

/-! ### What is written for a line -/

variable {s : Store} {name text : Bytes} {n : ℕ} {closed : Bool}

/-- The number the loop reads on the line of a counter. -/
def numberRead (name : Bytes) (n : ℕ) : ℤ :=
  match strstr curIdKey name with
  | some token => (scanInt (token.drop curIdKey.length)).getD 0
  | none => n

theorem nameAgrees_iff : NameAgrees name n ↔ numberRead name n = n := by
  rw [NameAgrees, numberRead]
  cases strstr curIdKey name with
  | none => simp
  | some token => simp

/-- The number that is written for a counter. -/
def numberWritten (s : Store) (name : Bytes) (n : ℕ) : ℤ :=
  if name = s.storeName then toInt32 (numberRead name n + 1) else numberRead name n

/-- The line that is written for a counter. -/
def counterLine (name : Bytes) (number : ℤ) : Bytes :=
  storeKey ++ (name ++ ch ';' :: (curIdKey ++ (printInt number ++ [ch ';'])))

/-- What is written for a line that is a C string. -/
def TrackerLine.piece (s : Store) : TrackerLine → Bytes
  | .counter name n _ => counterLine name (numberWritten s name n) ++ [newline]
  | .other text => text

/-- The number behind the first `cur_id=` of the line. -/
theorem scanInt_counter (hsmall : (n : ℤ) < intMax) :
    ∃ token, strstr curIdKey (TrackerLine.counter name n closed).text = some token ∧
      (scanInt (token.drop curIdKey.length)).getD 0 = numberRead name n := by
  have hskip : strstr curIdKey (TrackerLine.counter name n closed).text = strstr curIdKey
      (name ++ ch ';' :: (curIdKey ++ (printNat n ++ if closed then [ch ';'] else []))) :=
    strstr_append_of_not_mem (q := ch 'c') (by decide) _
  rw [hskip, numberRead]
  cases hname : strstr curIdKey name with
  | some token =>
      refine ⟨_, strstr_append hname _, ?_⟩
      obtain ⟨pre, post, -, rfl⟩ := strstr_eq_some_iff.mp hname
      rw [List.append_assoc, List.drop_left,
        scanInt_append_cons (by decide) (by decide) (by decide) (by decide)]
      change _ = (scanInt ((curIdKey ++ post).drop curIdKey.length)).getD 0
      rw [List.drop_left]
  | none =>
      have habsent : ¬ lit "cur_id" ++ [ch '='] <:+: name ++ [ch ';'] := by
        intro h
        rcases infix_append_cons (by decide) h with h | h
        · exact strstr_eq_none_iff.mp hname h
        · exact absurd h (by decide)
      have hfirst := firstOccurrence_of_absent (by decide) habsent
        (printNat n ++ if closed then [ch ';'] else [])
      have hline : name ++ ch ';' :: (curIdKey ++ (printNat n ++
          if closed then [ch ';'] else [])) = name ++ [ch ';'] ++ (lit "cur_id" ++ [ch '=']) ++
            (printNat n ++ if closed then [ch ';'] else []) := by
        simp [curIdKey, lit, ch]
      refine ⟨_, hline ▸ hfirst.strstr_eq, ?_⟩
      have hscan : scanInt (printNat n ++ if closed then [ch ';'] else []) = some (n : ℤ) := by
        refine scanInt_printNat (le_of_lt hsmall) ?_
        split
        · exact noDigit_cons (by decide) []
        · exact noDigit_nil
      exact congrArg (Option.getD · 0) hscan

/-- **A counter is written anew**, with its newline. -/
theorem updtLine_counter (hform : (TrackerLine.counter name n closed).Form) :
    updtLine s.storeName (TrackerLine.counter name n closed).text =
      some ((TrackerLine.counter name n closed).piece s) := by
  obtain ⟨hpos, hlen, hsemi, hsmall⟩ := hform
  obtain ⟨token, hfound, hnumber⟩ := @scanInt_counter name n closed hsmall
  have hstore : strstr storeKey (TrackerLine.counter name n closed).text =
      some (TrackerLine.counter name n closed).text :=
    strstr_of_starts (List.prefix_append _ _)
  have hname : scanSet 49 (ch ';') ((TrackerLine.counter name n closed).text.drop
      storeKey.length) = some name := by
    rw [TrackerLine.text, List.drop_left]
    exact scanSet_append_cons (List.ne_nil_of_length_pos hpos) hlen hsemi _
  rw [updtLine, hstore, hfound]
  simp only [hname, hnumber, bind, Option.bind_some, Option.pure_def]
  rw [TrackerLine.piece, counterLine, numberWritten]
  simp

/-- **Other text is written as it was read**, without its newline. -/
theorem updtLine_other (hform : (TrackerLine.other text).Form) :
    updtLine s.storeName text = some text := by
  rw [updtLine]
  split
  · rename_i storeToken curidToken hstore hcurid
    refine absurd ⟨?_, ?_⟩ hform
    · by_contra h
      rw [strstr_eq_none_iff.mpr h] at hstore
      simp at hstore
    · by_contra h
      rw [strstr_eq_none_iff.mpr h] at hcurid
      simp at hcurid
  · rfl

/-- What is written for a string is one. -/
theorem nulFree_updtLine {storeName line piece : Bytes} (hline : NulFree line)
    (h : updtLine storeName line = some piece) : NulFree piece := by
  rw [updtLine] at h
  split at h
  · rename_i storeToken curidToken hstore hcurid
    obtain ⟨name, hname, hpiece⟩ := Option.bind_eq_some_iff.mp h
    obtain ⟨pre, post, ⟨rfl, -⟩, rfl⟩ := strstr_eq_some_iff.mp hstore
    rw [List.drop_left] at hname
    have hnul : NulFree name := fun h0 =>
      hline (List.mem_append_right _ ((prefix_of_scanSet hname).subset h0))
    rw [Option.pure_def, Option.some.injEq] at hpiece
    rw [← hpiece]
    have hkey : NulFree storeKey := by decide
    have hcur : NulFree (ch ';' :: curIdKey) := by decide
    exact ((hkey.append hnul).append ((hcur.append (nulFree_printInt _)).append
      (by decide))).append (by decide)
  · rw [Option.some.injEq] at h
    rwa [← h]

/-! ### The lines of the new file -/

/-- The number that is read is an `int`. -/
theorem numberRead_range (hsmall : (n : ℤ) < intMax) :
    -2 ^ 31 ≤ numberRead name n ∧ numberRead name n ≤ intMax := by
  rw [numberRead]
  split
  · rename_i token _
    cases hscan : scanInt (token.drop curIdKey.length) with
    | none => decide
    | some z => exact scanInt_range hscan
  · exact ⟨by omega, le_of_lt hsmall⟩

/-- Raising an `int` gives a positive number only without overflow. -/
theorem eq_of_toInt32_succ {z : ℤ} (hlow : -2 ^ 31 ≤ z) (hhigh : z ≤ intMax)
    (h : toInt32 (z + 1) = (n + 1 : ℕ)) : z = n := by
  rcases eq_or_lt_of_le hhigh with rfl | hlt
  · have hwrap : toInt32 (intMax + 1) = -2 ^ 31 := by decide
    rw [hwrap] at h
    omega
  · rw [toInt32_of_range (by omega) hlt] at h
    omega

/-- The line written for a counter is what the counter may become when the number that was read
is its own. -/
theorem advanced_counter_iff (hsmall : (n : ℤ) < intMax) :
    (TrackerLine.counter name n closed).Advanced s (counterLine name (numberWritten s name n)) ↔
      NameAgrees name n := by
  have hmax : (n : ℤ) < 2 ^ 31 - 1 := hsmall
  have hnat : ∀ m : ℕ, printNat m = printInt (m : ℤ) := fun _ => rfl
  rw [nameAgrees_iff, numberWritten]
  constructor
  · rintro ⟨closed', -, h⟩
    simp only [counterLine, TrackerLine.text, List.append_cancel_left_eq, List.cons.injEq,
      true_and, hnat] at h
    have hread := congrArg readInt h
    rw [readInt_printInt _ (noDigit_cons (by decide) []), readInt_printInt] at hread
    · by_cases hname : name = s.storeName
      · rw [if_pos hname, if_pos hname] at hread
        obtain ⟨hlow, hhigh⟩ := @numberRead_range name n hsmall
        exact eq_of_toInt32_succ hlow hhigh hread
      · rwa [if_neg hname, if_neg hname] at hread
    · split
      · exact noDigit_cons (by decide) []
      · exact noDigit_nil
  · intro h
    refine ⟨true, fun _ => rfl, ?_⟩
    rw [h]
    by_cases hname : name = s.storeName
    · have hle : (n : ℤ) + 1 ≤ intMax := hsmall
      rw [if_pos hname, if_pos hname, toInt32_of_range (by omega) hle]
      rfl
    · rw [if_neg hname, if_neg hname]
      rfl

/-- The new file does not start with a newline. -/
theorem head_pieces_ne {lines : List TrackerLine} (h : ∀ l ∈ lines, newline ∉ l.text) {c : UInt8}
    {rest : Bytes} (hpieces : (lines.map (TrackerLine.piece s)).flatten = c :: rest) :
    c ≠ newline := by
  induction lines with
  | nil => simp at hpieces
  | cons l lines ih =>
      rw [List.map_cons, List.flatten_cons] at hpieces
      cases l with
      | counter name n closed =>
          have hstart : c = ch 's' := (List.cons.inj hpieces).1.symm
          rw [hstart]
          decide
      | other text =>
          cases text with
          | nil => exact ih (fun l hl => h l (List.mem_cons_of_mem _ hl)) hpieces
          | cons x text =>
              have hstart : x = c := (List.cons.inj hpieces).1
              have hfree := h _ List.mem_cons_self
              rw [← hstart]
              exact fun hx => hfree (hx ▸ List.mem_cons_self)

theorem newline_not_mem_counterLine (hname : newline ∉ name) (number : ℤ) :
    newline ∉ counterLine name number := by
  simp only [counterLine, List.mem_append, List.mem_cons, not_or]
  exact ⟨by decide, hname, by decide, by decide, not_mem_printInt (by decide) (by decide) _,
    by decide⟩

/-- Other text that a line follows is not a line of the new file: the next piece, if it is not
empty, goes on behind it. -/
theorem not_advanced_other {next : TrackerLine} {lines : List TrackerLine}
    (htext : newline ∉ text) (hnl : ∀ l ∈ next :: lines, newline ∉ l.text) :
    ¬ List.Forall₂ (TrackerLine.Advanced s) (.other text :: next :: lines)
      (textLines newline (text ++ ((next :: lines).map (TrackerLine.piece s)).flatten)) := by
  intro hlines
  cases hrest : ((next :: lines).map (TrackerLine.piece s)).flatten with
  | nil =>
      have hlen := hlines.length_eq
      rw [hrest, List.append_nil, textLines_of_free htext] at hlen
      split at hlen
      · simp at hlen
      · simp at hlen
  | cons c rest =>
      have hc := head_pieces_ne hnl hrest
      rw [hrest] at hlines
      have hhead := @head?_textLines _ _ newline (text ++ c :: rest) (by simp)
      obtain ⟨line, more, hfirst, -, hcons⟩ := List.forall₂_cons_left_iff.mp hlines
      rw [hcons, takeWhile_ne_append htext, List.takeWhile_cons_of_pos (by simpa)] at hhead
      have hline : line = text := hfirst
      have hlong := congrArg List.length (Option.some.inj hhead)
      rw [hline, List.length_append, List.length_cons] at hlong
      omega

/-- **The lines of the new file.** Induction along the old one: a line of other text that another
line follows is not a line any more. -/
theorem forall₂_pieces_iff {lines : List TrackerLine} (hform : ∀ l ∈ lines, l.Form)
    (hnl : ∀ l ∈ lines, newline ∉ l.text) :
    List.Forall₂ (TrackerLine.Advanced s) lines
      (textLines newline (lines.map (TrackerLine.piece s)).flatten) ↔ LinesAgree lines := by
  induction lines with
  | nil => simp [textLines_of_free, LinesAgree]
  | cons l lines ih =>
      have ih := ih (fun l hl => hform l (List.mem_cons_of_mem _ hl))
        fun l hl => hnl l (List.mem_cons_of_mem _ hl)
      have hfree := hnl l List.mem_cons_self
      rw [List.map_cons, List.flatten_cons]
      cases l with
      | counter name n closed =>
          have hname : newline ∉ name := fun h =>
            hfree (List.mem_append_right _ (List.mem_append_left _ h))
          rw [TrackerLine.piece, List.append_assoc, List.singleton_append,
            textLines_append_cons (newline_not_mem_counterLine hname _), List.forall₂_cons,
            advanced_counter_iff (hform _ List.mem_cons_self).2.2.2, ih, LinesAgree]
      | other text =>
          have htext : newline ∉ text := hfree
          cases lines with
          | nil =>
              change List.Forall₂ _ _ (textLines newline (text ++ [])) ↔ _
              rw [List.append_nil, textLines_of_free htext, LinesAgree]
              by_cases hnil : text = []
              · simp [hnil]
              · simp [hnil, TrackerLine.Advanced]
          | cons next lines =>
              rw [LinesAgree, iff_false]
              exact not_advanced_other htext fun l hl => hnl l (List.mem_cons_of_mem _ hl)

/-! ### The rewrite -/

/-- The lines as the loop reads them. -/
theorem TrackerFile.fileLines_text (f : TrackerFile) :
    fileLines 256 f.text = f.lines.map fun l => cstr l.text := by
  rw [TrackerFile.text, fileLines_linesText_flatMap, List.flatMap_map, List.map_eq_flatMap]
  refine List.flatMap_congr ?_
  intro l hl
  obtain ⟨hnl, hlen⟩ := f.short l hl
  rw [fileLines, fgetsLines_line hnl (by omega), List.map_singleton, terminateByNewline_line hnl]

/-- What the rewrite writes for strings. -/
theorem TrackerFile.mapM_updtLine {f : TrackerFile} (hnul : ∀ l ∈ f.lines, NulFree l.text) :
    (fileLines 256 f.text).mapM (updtLine s.storeName) =
      some (f.lines.map (TrackerLine.piece s)) := by
  rw [f.fileLines_text, mapM_eq_some_iff, List.forall₂_map_left_iff, List.forall₂_map_right_iff,
    List.forall₂_same]
  intro l hl
  rw [cstr_of_nulFree (hnul l hl)]
  cases l with
  | counter name n closed => exact updtLine_counter (f.form _ hl)
  | other text => exact updtLine_other (f.form _ hl)

/-- What may become a string is one. -/
theorem TrackerLine.Advanced.nulFree {l : TrackerLine} {line : Bytes} (h : l.Advanced s line)
    (hline : NulFree line) : NulFree l.text := by
  cases l with
  | counter name n closed =>
      obtain ⟨closed', -, rfl⟩ := h
      have hname : NulFree name := fun h0 =>
        hline (List.mem_append_right _ (List.mem_append_left _ h0))
      have hkey : NulFree storeKey := by decide
      have hcur : NulFree (ch ';' :: curIdKey) := by decide
      refine hkey.append (hname.append (hcur.append ((nulFree_printInt n).append ?_)))
      split
      · decide
      · decide
  | other text =>
      obtain rfl : line = text := h
      exact hline

/-- A file that keeps its lines holds strings: the loop writes nothing else. -/
theorem nulFree_of_keepsLines {f : TrackerFile} {d : Disk}
    (hfile : d.table .idTracker = some f.text) (h : KeepsLines f s d) :
    ∀ l ∈ f.lines, NulFree l.text := by
  obtain ⟨hresult, text, htext, hlines⟩ := h
  rw [updtNextIdentity] at hresult
  obtain ⟨written, hread, -⟩ := Proc.result_bind_eq_some.mp hresult
  rw [Proc.result_read, hfile] at hread
  obtain ⟨old, hold, hread⟩ := Option.bind_eq_some_iff.mp hread
  obtain rfl := Option.some.inj hold
  obtain ⟨pieces, hpieces, -⟩ := Option.bind_eq_some_iff.mp hread
  have hperf := updtNextIdentity_performs hfile hpieces
  obtain rfl : pieces.flatten = text := by
    rw [hperf.after_eq] at htext
    simpa [FileOp.exec] using htext
  have hstrings : ∀ piece ∈ pieces, NulFree piece := by
    intro piece hpiece
    rw [f.fileLines_text, mapM_eq_some_iff] at hpieces
    obtain ⟨line, hline, hwritten⟩ := (exists_partner hpieces).2 piece hpiece
    obtain ⟨l, -, rfl⟩ := List.mem_map.mp hline
    exact nulFree_updtLine (nulFree_cstr _) hwritten
  intro l hl
  obtain ⟨line, hline, hadvanced⟩ := (exists_partner hlines).1 l hl
  refine hadvanced.nulFree fun h => ?_
  obtain ⟨piece, hpiece, hzero⟩ := List.mem_flatten.mp (mem_of_mem_textLines hline h)
  exact hstrings piece hpiece hzero

/-- **Which tracker files keep their lines.** -/
theorem keepsLines_iff {f : TrackerFile} {d : Disk} (s : Store)
    (hfile : d.table .idTracker = some f.text) : KeepsLines f s d ↔ f.Agrees := by
  have hiff : (∀ l ∈ f.lines, NulFree l.text) → (KeepsLines f s d ↔ LinesAgree f.lines) := by
    intro hnul
    have hperf := updtNextIdentity_performs hfile (f.mapM_updtLine (s := s) hnul)
    have hafter : ((updtNextIdentity s).after d).table .idTracker =
        some (f.lines.map (TrackerLine.piece s)).flatten := by
      rw [hperf.after_eq]
      simp [FileOp.exec]
    rw [← forall₂_pieces_iff f.form fun l hl => (f.short l hl).1]
    constructor
    · rintro ⟨-, text, htext, hlines⟩
      rw [hafter, Option.some.injEq] at htext
      rwa [htext]
    · exact fun hlines => ⟨hperf.2, _, hafter, hlines⟩
  constructor
  · intro h
    have hnul := nulFree_of_keepsLines hfile h
    exact ⟨hnul, (hiff hnul).mp h⟩
  · rintro ⟨hnul, hlines⟩
    exact (hiff hnul).mpr hlines

/-- The tracker after start-up, with a comment above it or not. -/
def commentedTracker (comment : Bool) : TrackerFile where
  lines := (if comment then [.other (lit "# ids")] else []) ++
    [.counter (lit "./stores/user_db") 0 false, .counter (lit "./stores/account_db") 0 false]
  form := by cases comment <;> decide
  short := by cases comment <;> decide
  distinct := by cases comment <;> decide

/-- A directory with that tracker. -/
def commentedDisk (comment : Bool) : Disk :=
  Disk.empty.put .idTracker (some (commentedTracker comment).text)

/-- Without a comment every line is kept. -/
theorem keepsLines_started :
    (commentedDisk false).table .idTracker = some (commentedTracker false).text ∧
      KeepsLines (commentedTracker false) .user (commentedDisk false) := by
  have hname : ∀ name ∈ [lit "./stores/user_db", lit "./stores/account_db"],
      NameAgrees name 0 := by
    intro name hmem token htoken
    have hnone : ∀ name ∈ [lit "./stores/user_db", lit "./stores/account_db"],
        strstr curIdKey name = none := by decide
    rw [hnone name hmem] at htoken
    exact absurd htoken (Option.some_ne_none token).symm
  exact ⟨by decide, (keepsLines_iff .user (by decide)).mpr
    ⟨by decide, hname _ (by simp), hname _ (by simp), trivial⟩⟩

/-- **A comment above the counters**: it loses its newline, and the first counter is on its line. -/
theorem keepsLines_commented :
    ((updtNextIdentity .user).after (commentedDisk true)).table .idTracker =
      some (linesText [lit "# idsstore=./stores/user_db;cur_id=1;",
        lit "store=./stores/account_db;cur_id=0;"]) ∧
    ¬ KeepsLines (commentedTracker true) .user (commentedDisk true) := by
  have hafter : ((updtNextIdentity .user).after (commentedDisk true)).table .idTracker =
      some (linesText [lit "# idsstore=./stores/user_db;cur_id=1;",
        lit "store=./stores/account_db;cur_id=0;"]) := by
    decide +kernel
  refine ⟨hafter, ?_⟩
  rintro ⟨-, text, htext, hlines⟩
  rw [hafter, Option.some.injEq] at htext
  subst htext
  have hlen := hlines.length_eq
  revert hlen
  decide +kernel

end CBank

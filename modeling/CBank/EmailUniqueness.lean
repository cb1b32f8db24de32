import CBank.Login

/-!
# Email Uniqueness

`email_already_registered` compares an email with what the select engine reads from the user
table. A row is never removed or cut by later rows, so a registration is rejected as soon as
some line of an earlier row passes the filter for its email; an email the row format does not
carry passes for no line, and can be registered again.

## Main results

* `emailAlreadyRegistered_eq_false`: when an email counts as new.
* `Session.emailIn_after_iff`: when an email is known after its registration.
* `email_unique`: emails are unique in a session whose registrations are read back.
* `email_registered_twice`: an email with a semicolon is registered twice.
-/

namespace CBank

open CLib

/-- Some line of a text passes the filter for an email. -/
def EmailIn (email text : Bytes) : Prop :=
  ∃ line ∈ tableLines text, applySelectWhere (emailQuery email) line = true

/-- **An email that counts as new** passes for no line of the user table. -/
theorem emailAlreadyRegistered_eq_false {email : Bytes} {d : Disk}
    (h : emailAlreadyRegistered email d = some false) :
    ∃ text, d.table .user = some text ∧ ¬ EmailIn email text := by
  obtain ⟨rs, hrs, hrows⟩ := Option.bind_eq_some_iff.mp h
  cases htext : d.table .user with
  | none => simp [htext, selectExecutor] at hrs
  | some text =>
      rw [htext] at hrs
      obtain ⟨rfl, -, -⟩ := selectExecutor_eq_some_iff.mp hrs
      refine ⟨text, rfl, ?_⟩
      rintro ⟨line, hline, hpass⟩
      have hmem : selectPairs (emailQuery email).columns line ∈
          matchedRows (emailQuery email) text :=
        List.mem_map_of_mem (List.mem_filter.mpr ⟨hline, hpass⟩)
      have hpos := List.length_pos_of_mem hmem
      rw [rows_ofRows, decide_eq_true hpos] at hrows
      exact absurd hrows (by simp)

/-- A registration whose row, with the id it is given, is read back with its email. -/
def emailReadBack (crypt : Bytes → Bytes) (d : Disk) : Event → Prop
  | .setup => True
  | .register env payload => ∀ id, (getNextIdentity .user).result d = some id →
      EmailIn payload.email
        (rowText (userRow id payload (crypt payload.password) env.userCreatedAt) ++ [newline])

/-- The email of a registration. -/
def Outcome.email (o : Outcome) : Option Bytes := match o.event with
  | .setup => none
  | .register _ payload => some payload.email

/-- A row that suits the table format is read back with its email. -/
theorem emailIn_of_valueOk {id : Bytes} {payload : CreateUserDTO} {pwdHash createdAt : Bytes}
    (hval : ∀ p ∈ userRow id payload pwdHash createdAt, NulFree p.2 ∧ ValueOk p.2)
    (hlen : (rowText (userRow id payload pwdHash createdAt)).length ≤ 1022) :
    EmailIn payload.email (rowText (userRow id payload pwdHash createdAt) ++ [newline]) := by
  have hcols := userRow_columns id payload pwdHash createdAt
  have hR : Storable (userRelation [userRow id payload pwdHash createdAt]) :=
    storable_userRelation (by simpa using hcols) (by simpa using hval) (by simpa using hlen)
  have hrow : rowValue (userRow id payload pwdHash createdAt) ∈
      (userRelation [userRow id payload pwdHash createdAt]).rows := List.mem_cons_self
  have htext : rowText (tableRow userColumns (rowValue (userRow id payload pwdHash createdAt))) =
      rowText (userRow id payload pwdHash createdAt) := congrArg rowText (tableRow_rowValue hcols)
  have hvalue : rowValue (userRow id payload pwdHash createdAt) (lit "email") = payload.email := by
    have hmem : (lit "email", payload.email) ∈ userRow id payload pwdHash createdAt := by
      simp [userRow]
    exact rowValue_of_mem (hcols.symm ▸ nodup_userColumns) hmem
  have hcond : (emailQuery payload.email).conditions =
      [⟨lit "email", lit "=", payload.email⟩] := rfl
  refine ⟨rowText (userRow id payload pwdHash createdAt), ?_, ?_⟩
  · have hlines := hR.tableLines
    rw [tableText_userRelation (by simpa using hcols)] at hlines
    simp only [List.map_singleton, linesText, List.flatMap_singleton] at hlines
    rw [hlines]
    exact List.mem_map.mpr ⟨_, hrow, htext⟩
  · rw [← htext]
    refine (hR.applySelectWhere hrow ?_).trans ?_
    · rw [hcond]
      simp only [List.mem_singleton, forall_eq]
      have hcol : lit "email" ∈ userColumns := by decide
      exact ⟨hcol, Or.inl trivial⟩
    · simp [hcond, WhereCondition.holds, hvalue]

variable {crypt : Bytes → Bytes} {log : List Outcome} {d : Disk}

/-- The emails of the registrations that succeeded are in the user table. -/
theorem Session.emailIn (h : Session crypt (emailReadBack crypt) neverStopped log d) {o : Outcome}
    (ho : o ∈ accepted log) : ∃ email, o.email = some email ∧
      EmailIn email (linesText ((insertedRows .user (performed log)).map rowText)) := by
  obtain ⟨env, payload, id, d', hevent, hread, hwrote⟩ := h.wrote ho
  rw [hevent] at hread
  obtain ⟨line, hline, hpass⟩ := hread id hwrote.nextId
  have hrow : userRow id payload (crypt payload.password) env.userCreatedAt ∈
      insertedRows .user (performed log) := by
    rw [insertedRows_performed]
    exact List.mem_flatMap.mpr ⟨o, List.mem_of_mem_filter ho,
      hwrote.rows ▸ List.mem_cons_self⟩
  exact ⟨payload.email, by rw [Outcome.email, hevent], line,
    fileLines_subset_linesText (List.mem_map_of_mem hrow) 1024 hline, hpass⟩

/-- **When an email is known after its registration**: exactly when the row written for it is
read back with it. No earlier row was, or the registration would have been rejected. -/
theorem Session.emailIn_after_iff {canRun : Disk → Event → Prop}
    (h : Session crypt canRun neverStopped log d) {env : CallEnv} {payload : CreateUserDTO}
    {ops : List FileOp} {id : Bytes} (hwrote : WroteUser crypt env payload d ops id) :
    EmailIn payload.email (linesText ((insertedRows .user (performed log ++ ops)).map rowText)) ↔
      EmailIn payload.email
        (rowText (userRow id payload (crypt payload.password) env.userCreatedAt) ++ [newline]) := by
  obtain ⟨text, htext, hnew⟩ := emailAlreadyRegistered_eq_false hwrote.isNew
  obtain rfl := Option.some.inj (htext.symm.trans (h.table_eq htext))
  have hsplit : linesText ((insertedRows .user (performed log ++ ops)).map rowText) =
      linesText ((insertedRows .user (performed log)).map rowText) ++
        (rowText (userRow id payload (crypt payload.password) env.userCreatedAt) ++ [newline]) := by
    rw [insertedRows_append, hwrote.rows, List.map_append, linesText_append]
    simp [linesText]
  rw [hsplit, EmailIn, tableLines, fileLines_append (endsInNewline_linesText _)]
  constructor
  · rintro ⟨line, hline, hpass⟩
    rcases List.mem_append.mp hline with hold | hrow
    · exact absurd ⟨line, hold, hpass⟩ hnew
    · exact ⟨line, hrow, hpass⟩
  · rintro ⟨line, hline, hpass⟩
    exact ⟨line, List.mem_append_right _ hline, hpass⟩

/-- **Email uniqueness.** In a session whose registrations are read back with their email, no
two registrations that succeed have the same email. -/
theorem email_unique (h : Session crypt (emailReadBack crypt) neverStopped log d) :
    ((accepted log).map Outcome.email).Nodup := by
  induction h with
  | start => exact List.nodup_nil
  | stop h he n hn => exact absurd hn id
  | @finish log d e r h he hr ih =>
      rw [accepted_append]
      rcases (Event.finished hr).2 with ⟨-, hfail⟩ | ⟨hsuccess, env, payload, id, rfl, hwrote⟩
      · rw [if_neg (by rw [hfail]; exact Bool.false_ne_true), List.append_nil]
        exact ih
      · rw [if_pos hsuccess, List.map_append, List.map_singleton]
        refine List.nodup_append.mpr ⟨ih, List.nodup_singleton _, ?_⟩
        rintro _ hmem _ hlast rfl
        obtain ⟨o, ho, hsame⟩ := List.mem_map.mp hmem
        obtain ⟨email, hemail, hin⟩ := h.emailIn ho
        have hemail' : o.email = some payload.email := hsame.trans (List.mem_singleton.mp hlast)
        obtain rfl : email = payload.email := Option.some.inj (hemail.symm.trans hemail')
        obtain ⟨text, htext, hnew⟩ := emailAlreadyRegistered_eq_false hwrote.isNew
        obtain rfl := Option.some.inj (htext.symm.trans (h.table_eq htext))
        exact hnew hin

/-- A registration is read back with its email whose row is one line with it. -/
theorem emailReadBack_of_next {payload : CreateUserDTO} (next : Bytes)
    (hnext : (getNextIdentity .user).result d = some next)
    (hline : rowText (userRow next payload payload.password sampleEnv.userCreatedAt) ∈ tableLines
      (rowText (userRow next payload payload.password sampleEnv.userCreatedAt) ++ [newline]))
    (hpass : applySelectWhere (emailQuery payload.email)
      (rowText (userRow next payload payload.password sampleEnv.userCreatedAt)) = true) :
    emailReadBack id d (.register sampleEnv payload) := by
  intro id hid
  obtain rfl := Option.some.inj (hnext.symm.trans hid)
  exact ⟨_, hline, hpass⟩

/-- Ann and Bob are accepted, and Ann is not accepted again. -/
theorem email_unique_two :
    ((accepted twoLog).map Outcome.email).Nodup ∧
      (accepted twoLog).map Outcome.email = [some (lit "ann@x"), some (lit "bob@x")] ∧
      (sampleRegister.outcome id bobDisk).accepted = false := by
  have hann : emailReadBack id startedDisk sampleRegister :=
    emailReadBack_of_next (lit "0") (by decide +kernel) (by decide +kernel) (by decide +kernel)
  have hbob : emailReadBack id annDisk secondRegister :=
    emailReadBack_of_next (lit "1") nextIds_two.1 (by decide +kernel) (by decide +kernel)
  have hagain : emailReadBack id bobDisk sampleRegister :=
    emailReadBack_of_next (lit "2") nextIds_two.2 (by decide +kernel) (by decide +kernel)
  refine ⟨email_unique (session_two (fun _ => trivial) hann hbob hagain), ?_,
    outcomes_two.2.2.1⟩
  rw [accepted_two]
  rfl

/-- A registration with a semicolon in its email. -/
def semicolonRegister : Event :=
  .register sampleEnv ⟨lit "ann", lit "a;b", lit "1", lit "secret"⟩

/-- The disk after it. -/
def semicolonDisk : Disk := (semicolonRegister.proc id).after startedDisk

/-- **An email that is registered twice.** -/
theorem email_registered_twice : ∃ log d, Session id fittingCall neverStopped log d ∧
    ¬ ((accepted log).map Outcome.email).Nodup := by
  have hstart : Session id fittingCall neverStopped [Event.setup.outcome id Disk.empty]
      startedDisk := session_started trivial
  have hfits : ∀ d, fittingCall d semicolonRegister := fun _ =>
    ⟨by decide, by decide, by decide, by decide⟩
  obtain ⟨hfirst, hsecond, hemails⟩ : ((semicolonRegister.proc id).result startedDisk).isSome ∧
      ((semicolonRegister.proc id).result semicolonDisk).isSome ∧
      (accepted [Event.setup.outcome id Disk.empty, semicolonRegister.outcome id startedDisk,
        semicolonRegister.outcome id semicolonDisk]).map Outcome.email =
          [some (lit "a;b"), some (lit "a;b")] := by
    decide +kernel
  have honce := hstart.finish_outcome (hfits _) hfirst
  have htwice := honce.finish_outcome (e := semicolonRegister) (hfits _) hsecond
  refine ⟨_, _, htwice, ?_⟩
  intro hnodup
  change (List.map Outcome.email (accepted [Event.setup.outcome id Disk.empty,
      semicolonRegister.outcome id startedDisk,
      semicolonRegister.outcome id semicolonDisk])).Nodup at hnodup
  rw [hemails] at hnodup
  exact absurd hnodup (by decide)

end CBank

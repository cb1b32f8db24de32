import CBank.CLib.Proc
import CBank.CLib.Text

/-!
# The Stores Directory

The files of `data/store.h`: four stores and the temporary file that replaces the id
tracker. A file that does not exist is `none`. The operations are those between which the
process can be stopped: `fopen` in append mode creates a missing file, the writes of one
insert reach the file together at its `fflush`, the temporary file is written as a whole,
and `remove` and `rename` are separate steps.

## Main results

* `FileOp.exec_table_of_not_target`: an operation leaves every store alone but its own.
-/

namespace CBank

open CLib

/-- The four stores. -/
inductive Store
  | user
  | idTracker
  | account
  | transaction
  deriving DecidableEq, Repr

/-- The file names `DB_USER_SECTION`, `DB_ID_TRACKER_SECTION`, `DB_ACCOUNT_SECTION` and
`DB_TRANSACTION_SECTION`. -/
def Store.storeName : Store → Bytes
  | .user => lit "./stores/user_db"
  | .idTracker => lit "./stores/id_tracker_db"
  | .account => lit "./stores/account_db"
  | .transaction => lit "./stores/transaction_db"

/-- The contents of the stores and of `id_tracker_tmp.db`. -/
structure Disk where
  table : Store → Option Bytes
  tmp : Option Bytes

/-- A directory without any file. -/
def Disk.empty : Disk := ⟨fun _ => none, none⟩

/-- The store `s` holds `content`. -/
def Disk.put (d : Disk) (s : Store) (content : Option Bytes) : Disk :=
  { d with table := Function.update d.table s content }

@[simp] theorem Disk.put_table_self (d : Disk) (s : Store) (content : Option Bytes) :
    (d.put s content).table s = content := by
  simp [Disk.put]

@[simp] theorem Disk.put_table_of_ne (d : Disk) {s s' : Store} (h : s' ≠ s)
    (content : Option Bytes) : (d.put s content).table s' = d.table s' := by
  simp [Disk.put, h]

@[simp] theorem Disk.put_tmp (d : Disk) (s : Store) (content : Option Bytes) :
    (d.put s content).tmp = d.tmp := rfl

/-- The column/value pairs of a row, in order. -/
abbrev Row := List (Bytes × Bytes)

/-- What `insert_query_executor` prints for its pairs, without the newline. -/
def rowText : Row → Bytes
  | [] => []
  | [(col, value)] => col ++ ch '=' :: value
  | (col, value) :: row => col ++ ch '=' :: (value ++ ch ';' :: rowText row)

/-- The file operations of the program. -/
inductive FileOp
  /-- `fopen(store, "a+")` -/
  | create (s : Store)
  /-- the row of one insert and its newline -/
  | insert (s : Store) (row : Row)
  /-- text at the end of a store -/
  | append (s : Store) (text : Bytes)
  /-- the whole temporary file -/
  | writeTmp (text : Bytes)
  /-- `remove(DB_ID_TRACKER_SECTION)` -/
  | removeTracker
  /-- `rename(tmp_f_name, DB_ID_TRACKER_SECTION)` -/
  | renameTmp
  deriving DecidableEq, Repr

/-- What an operation does to the files. -/
def FileOp.exec (d : Disk) : FileOp → Disk
  | .create s => d.put s (some ((d.table s).getD []))
  | .insert s row => d.put s (some ((d.table s).getD [] ++ (rowText row ++ [newline])))
  | .append s text => d.put s (some ((d.table s).getD [] ++ text))
  | .writeTmp text => { d with tmp := some text }
  | .removeTracker => d.put .idTracker none
  | .renameTmp => { d.put .idTracker d.tmp with tmp := none }

instance : Exec Disk FileOp := ⟨FileOp.exec⟩

@[simp] theorem exec_eq (d : Disk) (op : FileOp) : Exec.exec d op = op.exec d := rfl

/-- The store an operation changes; the temporary file is none of them. -/
def FileOp.target : FileOp → Option Store
  | .create s => some s
  | .insert s _ => some s
  | .append s _ => some s
  | .writeTmp _ => none
  | .removeTracker => some .idTracker
  | .renameTmp => some .idTracker

/-- **An operation leaves every store alone but its own.** -/
theorem FileOp.exec_table_of_not_target (d : Disk) {op : FileOp} {s : Store}
    (h : op.target ≠ some s) : (op.exec d).table s = d.table s := by
  have hne : ∀ s', op.target = some s' → s ≠ s' := fun s' h' heq => h (heq ▸ h')
  cases op with
  | create s' => exact Disk.put_table_of_ne d (hne s' rfl) _
  | insert s' row => exact Disk.put_table_of_ne d (hne s' rfl) _
  | append s' text => exact Disk.put_table_of_ne d (hne s' rfl) _
  | writeTmp text => rfl
  | removeTracker => exact Disk.put_table_of_ne d (hne _ rfl) _
  | renameTmp => exact Disk.put_table_of_ne d (hne _ rfl) _

end CBank

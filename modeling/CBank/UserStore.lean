import CBank.CLib.Memory
import CBank.InsertQuery
import CBank.SelectQuery

/-!
# Users

`data/user_store.c` and `core/auth.c`. A `BankUser` is a run of 208 bytes with character
arrays at fixed offsets; `mount_user_from_line_buf` finds the columns of a line with
`strstr`, scans each value up to its semicolon into a local buffer and copies it with
`strcpy`. Where nothing is scanned the local buffer keeps what was on the stack, the parameter
`UserScratch`; running past the end of the `BankUser` has no defined result.

## Main results

* `bankUserLayout`: the members of a `BankUser` do not overlap.
-/

namespace CBank

open CLib

/-- The values of a `BankUser`, its arrays read as strings. -/
structure BankUser where
  id : Bytes
  name : Bytes
  cpf : Bytes
  email : Bytes
  password : Bytes
  isActive : Bool
  createdAt : Bytes
  updatedAt : Bytes
  deriving DecidableEq, Repr

/-- `BankUser user = {0}`. -/
def BankUser.zero : BankUser := ⟨[], [], [], [], [], false, [], []⟩

/-- The size of a `BankUser` and the offsets of its members. -/
abbrev bankUserSize : ℕ := 208
abbrev idOffset : ℕ := 0
abbrev nameOffset : ℕ := 20
abbrev cpfOffset : ℕ := 70
abbrev emailOffset : ℕ := 82
abbrev passwordOffset : ℕ := 132
abbrev isActiveOffset : ℕ := 167
abbrev createdAtOffset : ℕ := 168
abbrev updatedAtOffset : ℕ := 188

/-- The members of a `BankUser`; the flag is an array of one byte. -/
inductive BankField
  | id
  | name
  | cpf
  | email
  | password
  | isActive
  | createdAt
  | updatedAt
  deriving DecidableEq

/-- Where the members of a `BankUser` lie. -/
def bankUserField : BankField → Field
  | .id => ⟨idOffset, 20⟩
  | .name => ⟨nameOffset, 50⟩
  | .cpf => ⟨cpfOffset, 12⟩
  | .email => ⟨emailOffset, 50⟩
  | .password => ⟨passwordOffset, 35⟩
  | .isActive => ⟨isActiveOffset, 1⟩
  | .createdAt => ⟨createdAtOffset, 20⟩
  | .updatedAt => ⟨updatedAtOffset, 20⟩

/-- The layout of a `BankUser`. -/
def bankUserLayout : Layout BankField where
  field := bankUserField
  size := bankUserSize
  positive := by rintro (_ | _) <;> decide
  within := by rintro (_ | _) <;> decide
  disjoint := by rintro (_ | _) (_ | _) <;> decide

/-- The members of a `BankUser` in memory. -/
def readBankUser (mem : Bytes) : BankUser where
  id := cstrAt mem idOffset
  name := cstrAt mem nameOffset
  cpf := cstrAt mem cpfOffset
  email := cstrAt mem emailOffset
  password := cstrAt mem passwordOffset
  isActive := mem.getD isActiveOffset 0 ≠ 0
  createdAt := cstrAt mem createdAtOffset
  updatedAt := cstrAt mem updatedAtOffset

/-- The strings found in the local buffers of `mount_user_from_line_buf` before they are
written. -/
structure UserScratch where
  id : Bytes
  name : Bytes
  cpf : Bytes
  pwd : Bytes
  createdAt : Bytes
  updatedAt : Bytes

/-- `sscanf(token, "<key>%<width>[^;];", buf)` on a token that starts with the key. -/
def scanColumn (key token : Bytes) (width : ℕ) (scratch : Bytes) : Bytes :=
  (scanSet width (ch ';') (token.drop key.length)).getD scratch

/-- `mount_user_from_line_buf`. -/
def mountUserFromLineBuf (scratch : UserScratch) (line : Bytes) : Option BankUser :=
  match strstr (lit "id=") line, strstr (lit "name=") line, strstr (lit "cpf=") line,
    strstr (lit "password=") line, strstr (lit "is_active=") line,
    strstr (lit "created_at=") line, strstr (lit "updated_at=") line with
  | some idToken, some nameToken, some cpfToken, some pwdToken, some isActiveToken,
    some createdAtToken, some updatedAtToken => do
      let id := scanColumn (lit "id=") idToken 19 scratch.id
      let name := scanColumn (lit "name=") nameToken 255 scratch.name
      let cpf := scanColumn (lit "cpf=") cpfToken 19 scratch.cpf
      let pwd := scanColumn (lit "password=") pwdToken 255 scratch.pwd
      let isActive := (scanInt (isActiveToken.drop (lit "is_active=").length)).getD 0
      let createdAt := scanColumn (lit "created_at=") createdAtToken 19 scratch.createdAt
      let updatedAt := scanColumn (lit "updated_at=") updatedAtToken 19 scratch.updatedAt
      let mem ← strcpy (List.replicate bankUserSize 0) idOffset id
      let mem ← strcpy mem nameOffset name
      let mem ← strcpy mem cpfOffset cpf
      let mem ← strcpy mem passwordOffset pwd
      let mem := mem.set isActiveOffset (if isActive = 0 then 0 else 1)
      let mem ← strcpy mem createdAtOffset createdAt
      let mem ← strcpy mem updatedAtOffset updatedAt
      some (readBankUser mem)
  | _, _, _, _, _, _, _ => some BankUser.zero

/-- `get_user_by_field`: the inner `none` is the response without success. -/
def getUserByField (scratch : UserScratch) (field value : Bytes) (d : Disk) :
    Option (Option BankUser) := do
  let result ← selectExecutor (qwhere (qselectAllFrom .user) field (lit "=") value) (d.table .user)
  if result.rows = 0 then some none
  else do
    let buf ← fullLine result 0 1024
    let user ← mountUserFromLineBuf scratch buf
    some (some user)

/-- `login`: the inner `none` is the response without success; `crypt` is the password hash
with its fixed salt. -/
def login (crypt : Bytes → Bytes) (scratch : UserScratch) (cpf pwd : Bytes) (d : Disk) :
    Option (Option BankUser) := do
  match ← getUserByField scratch (lit "cpf") cpf d with
  | none => some none
  | some user => if crypt pwd = user.password then some (some user) else some none

end CBank

import Mathlib.Data.Nat.Bitwise

/-!
# The `ls` of lab2: the system it runs on, and one file

`main.c` of lab2 reaches the file system only through `stat`, `opendir` and `readdir`,
`getpwuid` and `getgrgid`, the clock and `strftime`. The model sees the system through those
calls (`Sys`): one fixed answer per path for the whole run, a directory giving the same
entries to both loops of `list_dir`. A C string is a `String` whose characters stand for its
bytes.

`errno` is part of the state: a failing `stat`, `opendir` or `readdir` sets it, and so may the
lookups of `-l` even when they succeed: `getpwuid` and `getgrgid` (glibc's set it to `0`), and the
`localtime` of `date_string` (glibc reads the time zone on its first call, and leaves `ENOENT`
when there is no zone file). Whether `localtime` has run is part of the state too. What the
program writes to
standard output is a list of `Out` events, one per group of `printf` calls, each with its text
(`Out.render`); `strerror` and `strftime` are the C library's.

* `handleError`: the `PRINT_ERROR` line, and the bits of `err_code`.
* `testFile`, `isDir`, `listFile`: the functions on one path.
-/

namespace Labs.Ls

/-- The value a failing call leaves in `errno`: never `0`. -/
structure Errno where
  code : Nat
  pos : 0 < code
  deriving DecidableEq

/-- `ENOENT`, `EACCES` and `EPERM`, with their Linux values. -/
def enoent : Nat := 2
def eacces : Nat := 13
def eperm : Nat := 1

/-- The fields of a `struct stat` that `ls` reads; `mtime` is `st_mtime`, in seconds. -/
structure Stat where
  mode : Nat
  nlink : Nat
  uid : Nat
  gid : Nat
  size : Int
  mtime : Int
  deriving DecidableEq

/-- The system a run sees: `stat` (which follows symbolic links), `opendir` together with the
entries `readdir` then returns and the `errno` its final `NULL` leaves (`none` at the end of the
directory), `getpwuid` and `getgrgid` (`none` for a `NULL` result) with what each leaves in
`errno` (`none` when it leaves it as it was), what `localtime` leaves in `errno` on the first call
of the run and on a later one, the clock, and `strftime` of a format on `localtime` of a time. -/
structure Sys where
  stat : String → Except Errno Stat
  readdir : String → Except Errno (List String × Option Errno)
  getpwuid : Nat → Option String
  getgrgid : Nat → Option String
  getpwuidErrno : Nat → Option Nat
  getgrgidErrno : Nat → Option Nat
  localtimeErrno : Bool → Option Nat
  now : Int
  strftime : String → Int → String

/-! ## What `ls` prints -/

/-- One group of `printf` calls: an error line, the line of a file in short or long format (its
name, and whether a `/` follows it), a `path:` header, a blank line, the count of `-n`, the line
for an option the `switch` does not know, and the help text. An owner or group is a name, or
the number printed when the lookup fails. -/
inductive Out
  | error (what path : String) (errno : Nat)
  | short (name : String) (slash : Bool)
  | long (ftype perms : String) (nlink : Nat) (owner group : String ⊕ Nat) (size : Int)
      (date name : String) (slash : Bool)
  | header (path : String)
  | blank
  | count (n : Nat)
  | unimplemented (opt : Nat)
  | help
  deriving DecidableEq

def nameText (name : String) (slash : Bool) : String :=
  if slash then name ++ "/\n" else name ++ "\n"

def idText : String ⊕ Nat → String
  | .inl name => name
  | .inr id => toString id

/-- What `help()` prints. -/
def helpText : String :=
  "ls: List files\n" ++
  "\t--help        Print this help\n" ++
  "\t-a            Include entries starting with \x27.\x27; also print \x27.\x27 and \x27..\x27\n" ++
  "\t-l            Long listing format (mode, links, owner, group, size, mtime)\n" ++
  "\t-n            Print only a count of entries (takes precedence over -l)\n" ++
  "\t-R            Recursively list subdirectories\n"

/-- The text of an event, given `strerror`. -/
def Out.render (strerror : Nat → String) : Out → String
  | .error what path errno => "ls: " ++ what ++ " " ++ path ++ ": " ++ strerror errno ++ "\n"
  | .short name slash => nameText name slash
  | .long ftype perms nlink owner group size date name slash =>
    ftype ++ perms ++ " " ++ toString nlink ++ " " ++ idText owner ++ " " ++ idText group ++ " " ++
      toString size ++ " " ++ date ++ " " ++ nameText name slash
  | .header path => path ++ ":\n"
  | .blank => "\n"
  | .count n => toString n ++ "\n"
  | .unimplemented opt => "Unimplemented flag " ++ toString opt ++ "\n"
  | .help => helpText

/-! ## The state of a run -/

/-- The globals `err_code` and `g_count`, `errno`, what has been printed, and whether
`localtime` has run. `g_count` is an `unsigned long long`: it would wrap only after `2^64`
entries. -/
structure St where
  errCode : Nat
  errno : Nat
  count : Nat
  out : List Out
  localtimeCalled : Bool

def St.init : St := ⟨0, 0, 0, [], false⟩

def St.print (s : St) (o : List Out) : St := { s with out := s.out ++ o }

/-- A failing call: `errno` is set. -/
def St.fail (s : St) (e : Errno) : St := { s with errno := e.code }

@[simp] theorem St.print_out (s : St) (o : List Out) : (s.print o).out = s.out ++ o := rfl
@[simp] theorem St.print_errCode (s : St) (o : List Out) : (s.print o).errCode = s.errCode := rfl
@[simp] theorem St.print_errno (s : St) (o : List Out) : (s.print o).errno = s.errno := rfl
@[simp] theorem St.print_count (s : St) (o : List Out) : (s.print o).count = s.count := rfl
@[simp] theorem St.print_nil (s : St) : s.print [] = s := by simp [St.print]
@[simp] theorem St.print_print (s : St) (o o' : List Out) : (s.print o).print o' = s.print (o ++ o') := by
  simp [St.print]
@[simp] theorem St.fail_out (s : St) (e : Errno) : (s.fail e).out = s.out := rfl
@[simp] theorem St.fail_errCode (s : St) (e : Errno) : (s.fail e).errCode = s.errCode := rfl
@[simp] theorem St.fail_errno (s : St) (e : Errno) : (s.fail e).errno = e.code := rfl
@[simp] theorem St.fail_count (s : St) (e : Errno) : (s.fail e).count = s.count := rfl
@[simp] theorem St.print_localtimeCalled (s : St) (o : List Out) :
    (s.print o).localtimeCalled = s.localtimeCalled := rfl
@[simp] theorem St.fail_localtimeCalled (s : St) (e : Errno) :
    (s.fail e).localtimeCalled = s.localtimeCalled := rfl

/-- The bit of `err_code` for the kind of error `errno` holds: not found, access denied, or
other. -/
def errClass (errno : Nat) : Nat :=
  if errno = enoent then 0x08 else if errno = eacces ∨ errno = eperm then 0x10 else 0x20

/-- `handle_error(what_happened, fullname)`: prints `ls: what fullname: strerror(errno)` and sets
the "some error" bit and the bit of the kind of `errno`. -/
def handleError (what fullname : String) (s : St) : St :=
  { s with out := s.out ++ [.error what fullname s.errno],
           errCode := s.errCode ||| 0x40 ||| errClass s.errno }

@[simp] theorem handleError_out (what fullname : String) (s : St) :
    (handleError what fullname s).out = s.out ++ [.error what fullname s.errno] := rfl
@[simp] theorem handleError_errCode (what fullname : String) (s : St) :
    (handleError what fullname s).errCode = s.errCode ||| 0x40 ||| errClass s.errno := rfl
@[simp] theorem handleError_errno (what fullname : String) (s : St) :
    (handleError what fullname s).errno = s.errno := rfl
@[simp] theorem handleError_count (what fullname : String) (s : St) :
    (handleError what fullname s).count = s.count := rfl

/-! ## Paths and modes -/

/-- `name[0] == '.'`. -/
def startsWithDot (name : String) : Bool := name.toList.head? == some '.'

/-- `is_dot_or_dotdot`. -/
def isDotOrDotdot (name : String) : Bool := name == "." || name == ".."

/-- `join_path(out, PATH_MAX, dir, name)`: `dir` and `name` with a `/` between them unless `dir`
ends in one; `snprintf` keeps at most `PATH_MAX - 1 = 4095` bytes. -/
def joinPath (dir name : String) : String :=
  let joined := if dir.toList.getLast? = some '/' then dir ++ name else dir ++ "/" ++ name
  String.mk (joined.toList.take 4095)

/-- `last_component`: what follows the last `/`, the `/` itself when nothing does, and the whole
path when it has no `/`. (Its second `strrchr` finds the same `/` as the first.) -/
def lastComponent (path : String) : String :=
  if '/' ∈ path.toList then
    match (path.toList.reverse.takeWhile (· != '/')).reverse with
    | [] => "/"
    | after => String.mk after
  else path

/-- Before `snprintf` cuts it, a joined path is a prefix of the directory, a `/`, and the name. -/
theorem joinPath_toList (dir name : String) :
    ∃ pre : List Char,
      (if dir.toList.getLast? = some '/' then dir ++ name else dir ++ "/" ++ name).toList =
        pre ++ '/' :: name.toList ∧ pre.length ≤ dir.length := by
  split_ifs with h
  · obtain ⟨ys, e⟩ := List.getLast?_eq_some_iff.mp h
    have e : dir.data = ys ++ ['/'] := e
    refine ⟨ys, by simp [String.toList, String.data_append, e], ?_⟩
    show ys.length ≤ dir.data.length
    simp [e]
  · exact ⟨dir.toList, by simp [String.toList, String.data_append], le_rfl⟩

/-- A name without `/`, joined to a directory, is what `last_component` finds again, as long as
`snprintf` did not cut the path: a file given as the operand `dir/name` is listed under the name it
has in `dir`. -/
theorem lastComponent_joinPath {dir name : String} (nonempty : name ≠ "")
    (noSlash : '/' ∉ name.toList) (fits : dir.length + name.length < 4095) :
    lastComponent (joinPath dir name) = name := by
  obtain ⟨pre, joined, short⟩ := joinPath_toList dir name
  unfold joinPath lastComponent
  have len : (pre ++ '/' :: name.toList).length ≤ 4095 := by
    have : name.toList.length = name.length := rfl
    simp only [List.length_append, List.length_cons]
    omega
  have keep : ∀ c ∈ name.data.reverse, (c != '/') = true := fun c mem =>
    bne_iff_ne.mpr fun h => noSlash (h ▸ List.mem_reverse.mp mem)
  simp only [joined, List.take_of_length_le len]
  rw [if_pos (by simp [String.toList])]
  dsimp only [String.toList]
  rw [List.reverse_append, List.reverse_cons, List.append_assoc,
    List.takeWhile_append_of_pos keep]
  obtain ⟨_ | ⟨c, cs⟩⟩ := name
  · exact absurd rfl nonempty
  · simp

/-- `d/` already ends in `/`, and `f` is found again in `d/f`. -/
theorem lastComponent_joinPath_dir_slash :
    "f" ≠ "" ∧ '/' ∉ "f".toList ∧ "d/".length + "f".length < 4095 ∧
      lastComponent (joinPath "d/" "f") = "f" :=
  ⟨by decide, by decide, by decide, lastComponent_joinPath (by decide) (by decide) (by decide)⟩

/-- `S_ISDIR` and `S_ISREG`: the type bits `mode & S_IFMT`. -/
def isDirMode (mode : Nat) : Bool := mode &&& 0o170000 == 0o040000
def isRegMode (mode : Nat) : Bool := mode &&& 0o170000 == 0o100000

/-- `ftype_to_str`. -/
def ftypeToStr (mode : Nat) : String :=
  if isDirMode mode then "d" else if isRegMode mode then "-" else "?"

/-- The nine `PRINT_PERM_CHAR` calls of `-l`: `r`, `w`, `x` for owner, group and others. -/
def permString (mode : Nat) : String :=
  String.mk <| [(0o400, 'r'), (0o200, 'w'), (0o100, 'x'), (0o40, 'r'), (0o20, 'w'), (0o10, 'x'),
    (0o4, 'r'), (0o2, 'w'), (0o1, 'x')].map fun (mask, ch) => if mode &&& mask ≠ 0 then ch else '-'

/-- `date_string`: the year for a time in the future or a year (`31556952` s) or more ago, the
hour and minute otherwise. -/
def dateString (sys : Sys) (t : Int) : String :=
  if sys.now < t then sys.strftime "%b %e %Y" t
  else if sys.now - t < 31556952 then sys.strftime "%b %e %H:%M" t
  else sys.strftime "%b %e %Y" t

/-! ## One path -/

/-- `uname_for_uid` and `group_for_gid`: the name, or the number when the lookup fails. -/
def unameForUid (sys : Sys) (uid : Nat) : String ⊕ Nat :=
  match sys.getpwuid uid with
  | some name => .inl name
  | none => .inr uid

def groupForGid (sys : Sys) (gid : Nat) : String ⊕ Nat :=
  match sys.getgrgid gid with
  | some name => .inl name
  | none => .inr gid

/-- `errno` after the calls of `-l` for a file that may write it: `getpwuid`, `getgrgid`, and the
`localtime` of `date_string`, its first call of the run when `first`. -/
def lookupsErrno (sys : Sys) (sb : Stat) (first : Bool) (errno : Nat) : Nat :=
  (sys.localtimeErrno first).getD
    ((sys.getgrgidErrno sb.gid).getD ((sys.getpwuidErrno sb.uid).getD errno))

/-- A failed lookup sets the "some error" and "other error" bits, without a message. -/
def idErr : String ⊕ Nat → Nat → Nat
  | .inl _, errCode => errCode
  | .inr _, errCode => errCode ||| 0x40 ||| 0x20

/-- `test_file`: whether `stat` succeeds; a failure is reported. -/
def testFile (sys : Sys) (path : String) (s : St) : Bool × St :=
  match sys.stat path with
  | .ok _ => (true, s)
  | .error e => (false, handleError "cannot access" path (s.fail e))

/-- `is_dir`: whether `stat` gives a directory; a failure is `false`, with `errno` set and no
message. -/
def isDir (sys : Sys) (path : String) (s : St) : Bool × St :=
  match sys.stat path with
  | .ok sb => (isDirMode sb.mode, s)
  | .error e => (false, s.fail e)

/-- `list_file(pathandname, name, list_long)`: a failing `stat` is reported; under `-n` the file
is counted; otherwise its line is printed, the name followed by `/` for a directory other than
`.` and `..`, after the lookups of `-l`. -/
def listFile (sys : Sys) (countOnly : Bool) (path name : String) (listLong : Bool) (s : St) : St :=
  match sys.stat path with
  | .error e => handleError "cannot access" path (s.fail e)
  | .ok sb =>
    if countOnly then { s with count := s.count + 1 }
    else
      let slash := isDirMode sb.mode && !isDotOrDotdot name
      if listLong then
        let owner := unameForUid sys sb.uid
        let group := groupForGid sys sb.gid
        { s with
          errCode := idErr group (idErr owner s.errCode),
          errno := lookupsErrno sys sb (!s.localtimeCalled) s.errno,
          localtimeCalled := true,
          out := s.out ++ [.long (ftypeToStr sb.mode) (permString sb.mode) sb.nlink owner group
            sb.size (dateString sys sb.mtime) name slash] }
      else s.print [.short name slash]

end Labs.Ls

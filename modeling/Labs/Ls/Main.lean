import Labs.Ls.System

/-!
# The `ls` of lab2: `list_dir` and `main`

`list_dir` reads a directory twice: a first loop lists its entries, and under `-R` a second
loop, after `rewinddir`, lists each subdirectory in turn by a recursive call. Each loop starts
with `errno = 0` and ends with `if (errno != 0) handle_error("error reading directory", ...)`.
The recursion follows `stat`, so symbolic links to directories are followed too; it runs here
on a `fuel` bound, one unit per level, and is `none` when the bound runs out.

`main` runs the `switch` over the option characters `getopt_long` returns, then lists `.` when
no operand is left, or else makes three passes over the operands: the files, a search for a
directory, and the directories.

* `listDir`, `ls`: the program.
* `Bounded`, `listDir_isSome`, `ls_terminates`: on a system whose directories below the
  starting points go at most `k` levels down, fuel `k` is enough.
* `ls_fuel_mono`: more fuel gives the same result, so the result does not depend on the bound.
-/

namespace Labs.Ls

/-! ## `list_dir` -/

/-- The first loop of `list_dir`: each entry goes to `list_file`, except, without `-a`, those
whose name starts with `.`. -/
def listEntries (sys : Sys) (countOnly listLong listAll : Bool) (dirname : String) :
    List String → St → St
  | [], s => s
  | name :: rest, s =>
    listEntries sys countOnly listLong listAll dirname rest
      (if !listAll && startsWithDot name then s
       else listFile sys countOnly (joinPath dirname name) name listLong s)

/-- The final `NULL` of `readdir`: an error sets `errno`, the end of the directory does not. -/
def readdirEnd (endErr : Option Errno) (s : St) : St :=
  match endErr with
  | some e => s.fail e
  | none => s

/-- `if (errno != 0) handle_error("error reading directory", dirname)`. -/
def checkReadError (dirname : String) (s : St) : St :=
  if s.errno ≠ 0 then handleError "error reading directory" dirname s else s

/-- The second loop of `list_dir`: each entry other than `.` and `..` (and, without `-a`, than
a hidden one) that `is_dir` finds a directory is listed by `listSub`, after a `\npath:` header
unless under `-n`. -/
def recurseEntries (sys : Sys) (countOnly listAll : Bool) (dirname : String)
    (listSub : String → St → Option St) : List String → St → Option St
  | [], s => some s
  | name :: rest, s =>
    if isDotOrDotdot name || (!listAll && startsWithDot name) then
      recurseEntries sys countOnly listAll dirname listSub rest s
    else
      match isDir sys (joinPath dirname name) s with
      | (true, s) =>
        (listSub (joinPath dirname name)
            (if countOnly then s else s.print [.blank, .header (joinPath dirname name)])).bind
          (recurseEntries sys countOnly listAll dirname listSub rest)
      | (false, s) => recurseEntries sys countOnly listAll dirname listSub rest s

/-- `list_dir(dirname, list_long, list_all, recursive)`, with `g_count_only` as `countOnly`.
A directory that does not open is reported; otherwise the first loop, then under `-R` the
second, each closed by the check of `errno`. -/
def listDir (sys : Sys) (countOnly listLong listAll : Bool) :
    Nat → Bool → String → St → Option St
  | 0, _, _, _ => none
  | fuel + 1, recursive, dirname, s =>
    match sys.readdir dirname with
    | .error e => some (handleError "cannot open directory" dirname (s.fail e))
    | .ok (names, endErr) =>
      let s := checkReadError dirname
        (readdirEnd endErr (listEntries sys countOnly listLong listAll dirname names
          { s with errno := 0 }))
      if recursive then
        (recurseEntries sys countOnly listAll dirname
            (listDir sys countOnly listLong listAll fuel true) names { s with errno := 0 }).map
          fun s => checkReadError dirname (readdirEnd endErr s)
      else some s

/-! ## `main` -/

/-- The flags `-l`, `-a`, `-R` and `-n` (`g_count_only`). -/
structure Flags where
  listLong : Bool
  listAll : Bool
  recursive : Bool
  countOnly : Bool

def Flags.init : Flags := ⟨false, false, false, false⟩

/-- The `switch` over the characters `getopt_long` returns, from the left: `--help` (`\a`)
prints the help and ends the program with `exit(0)` (`none`), `-1` changes nothing, any other
character the `switch` does not know is printed as an unimplemented flag. -/
def parseOpts : List Char → Flags × St → Option Flags × St
  | [], (f, s) => (some f, s)
  | c :: cs, (f, s) =>
    match c with
    | '\x07' => (none, s.print [.help])
    | '1' => parseOpts cs (f, s)
    | 'a' => parseOpts cs ({ f with listAll := true }, s)
    | 'l' => parseOpts cs ({ f with listLong := true }, s)
    | 'n' => parseOpts cs ({ f with countOnly := true }, s)
    | 'R' => parseOpts cs ({ f with recursive := true }, s)
    | c => parseOpts cs (f, s.print [.unimplemented c.toNat])

/-- The `switch` prints the help or an unimplemented flag, and changes nothing else. -/
theorem parseOpts_snd (opts : List Char) (f : Flags) (s : St) :
    ∃ os, (parseOpts opts (f, s)).2 = s.print os ∧
      ∀ o ∈ os, o = .help ∨ ∃ c, o = .unimplemented c := by
  induction opts generalizing f s with
  | nil => exact ⟨[], by simp [parseOpts], by simp⟩
  | cons c cs ih =>
    unfold parseOpts; split
    · exact ⟨[.help], rfl, by simp⟩
    case h_7 =>
      obtain ⟨os, e, printed⟩ := ih f (s.print [.unimplemented c.toNat])
      exact ⟨.unimplemented c.toNat :: os, by rw [e, St.print_print]; rfl,
        by simpa using printed⟩
    all_goals exact ih _ _

/-- The `switch` ends with flags exactly when `--help` is not among the options. -/
theorem parseOpts_isSome (opts : List Char) (f : Flags) (s : St) :
    (parseOpts opts (f, s)).1.isSome ↔ '\x07' ∉ opts := by
  induction opts generalizing f s with
  | nil => simp [parseOpts]
  | cons c cs ih =>
    unfold parseOpts; split
    · simp
    case h_7 help _ _ _ _ _ => simp [ih, Ne.symm help]
    all_goals simp [ih]

/-- The flags the `switch` ends with: each of `-l`, `-a`, `-R` and `-n` is set when its character
is among the options. -/
theorem parseOpts_flags {opts : List Char} {f g : Flags} {s t : St}
    (h : parseOpts opts (f, s) = (some g, t)) :
    g = ⟨f.listLong || decide ('l' ∈ opts), f.listAll || decide ('a' ∈ opts),
      f.recursive || decide ('R' ∈ opts), f.countOnly || decide ('n' ∈ opts)⟩ := by
  induction opts generalizing f s with
  | nil => cases h; simp
  | cons c cs ih =>
    unfold parseOpts at h; split at h
    · cases h
    case h_7 help one a l n r => rw [ih h]; simp [Ne.symm one, Ne.symm a, Ne.symm l, Ne.symm n, Ne.symm r]
    all_goals rw [ih h]; simp

/-- Taking the characters of one flag out of the options changes neither what the `switch`
prints nor whether `--help` ends the program: only the flags. -/
theorem parseOpts_filter_flag (c : Char) (flag : c = '1' ∨ c = 'a' ∨ c = 'l' ∨ c = 'n' ∨ c = 'R')
    (opts : List Char) (f f' : Flags) (s : St) :
    (parseOpts (opts.filter (· != c)) (f', s)).2 = (parseOpts opts (f, s)).2 ∧
      (parseOpts (opts.filter (· != c)) (f', s)).1.isSome = (parseOpts opts (f, s)).1.isSome := by
  induction opts generalizing f f' s with
  | nil => exact ⟨rfl, rfl⟩
  | cons x xs ih =>
    by_cases hx : x = c
    · subst hx
      rw [List.filter_cons_of_neg (by simp)]
      rcases flag with rfl | rfl | rfl | rfl | rfl <;> exact ih _ _ _
    · rw [List.filter_cons_of_pos (by simpa using hx)]
      unfold parseOpts
      split <;> first | exact ⟨rfl, rfl⟩ | exact ih _ _ _

/-- From the initial flags, the options with and without one flag both end at the help or both
end with flags, after the same messages. -/
theorem parseOpts_filter_cases {c : Char} (flag : c = '1' ∨ c = 'a' ∨ c = 'l' ∨ c = 'n' ∨ c = 'R')
    (opts : List Char) :
    (∃ s, parseOpts opts (Flags.init, St.init) = (none, s) ∧
        parseOpts (opts.filter (· != c)) (Flags.init, St.init) = (none, s)) ∨
      ∃ g g' s, parseOpts opts (Flags.init, St.init) = (some g, s) ∧
        parseOpts (opts.filter (· != c)) (Flags.init, St.init) = (some g', s) := by
  obtain ⟨same, someFlags⟩ := parseOpts_filter_flag c flag opts Flags.init Flags.init St.init
  generalize parseOpts opts (Flags.init, St.init) = r at same someFlags ⊢
  generalize parseOpts (opts.filter (· != c)) (Flags.init, St.init) = r' at same someFlags ⊢
  obtain ⟨_ | g, s⟩ := r <;> obtain ⟨_ | g', s'⟩ := r' <;> cases same <;> cases someFlags
  · exact .inl ⟨s, rfl, rfl⟩
  · exact .inr ⟨g, g', s, rfl, rfl⟩

/-- The first loop over the operands: each accessible one that is not a directory goes to
`list_file` under its `last_component`; the flag records that one did. -/
def listFileOperands (sys : Sys) (countOnly listLong : Bool) :
    List String → Bool × St → Bool × St
  | [], acc => acc
  | path :: rest, (printed, s) =>
    match testFile sys path s with
    | (false, s) => listFileOperands sys countOnly listLong rest (printed, s)
    | (true, s) =>
      match isDir sys path s with
      | (true, s) => listFileOperands sys countOnly listLong rest (printed, s)
      | (false, s) =>
        listFileOperands sys countOnly listLong rest
          (true, listFile sys countOnly path (lastComponent path) listLong s)

/-- The second loop: whether some operand passes `test_file` and `is_dir`; it stops at the
first that does. -/
def haveDirOperand (sys : Sys) : List String → St → Bool × St
  | [], s => (false, s)
  | path :: rest, s =>
    match testFile sys path s with
    | (false, s) => haveDirOperand sys rest s
    | (true, s) =>
      match isDir sys path s with
      | (true, s) => (true, s)
      | (false, s) => haveDirOperand sys rest s

/-- The third loop: each accessible directory operand is listed; with several operands or `-R`
(and not `-n`) it gets a `path:` header, with a blank line before it unless it is the first
header and no file was listed. -/
def listDirOperands (sys : Sys) (f : Flags) (fuel : Nat) (multiple printedAnyFile : Bool) :
    List String → Bool × St → Option St
  | [], (_, s) => some s
  | path :: rest, (firstDir, s) =>
    match testFile sys path s with
    | (false, s) => listDirOperands sys f fuel multiple printedAnyFile rest (firstDir, s)
    | (true, s) =>
      match isDir sys path s with
      | (false, s) => listDirOperands sys f fuel multiple printedAnyFile rest (firstDir, s)
      | (true, s) =>
        let (firstDir, s) :=
          if !f.countOnly && (multiple || f.recursive) then
            (true, s.print ((if firstDir || printedAnyFile then [.blank] else []) ++ [.header path]))
          else (firstDir, s)
        (listDir sys f.countOnly f.listLong f.listAll fuel f.recursive path s).bind
          fun s => listDirOperands sys f fuel multiple printedAnyFile rest (firstDir, s)

/-- `main` after the options: `.` when no operand is left (under `-n` without `-l`, and then
the count), else the three loops, a blank line between the files and the directories, and the
count under `-n`. -/
def lsMain (sys : Sys) (fuel : Nat) (f : Flags) (operands : List String) (s : St) : Option St :=
  if operands = [] then
    if f.countOnly then
      (listDir sys true false f.listAll fuel f.recursive "." s).map fun s => s.print [.count s.count]
    else listDir sys false f.listLong f.listAll fuel f.recursive "." s
  else
    let (printedAnyFile, s) := listFileOperands sys f.countOnly f.listLong operands (false, s)
    let (haveDir, s) := haveDirOperand sys operands s
    let s := if !f.countOnly && printedAnyFile && haveDir then s.print [.blank] else s
    (listDirOperands sys f fuel (1 < operands.length) printedAnyFile operands (false, s)).map
      fun s => if f.countOnly then s.print [.count s.count] else s

/-- `ls` on the option characters `getopt_long` returns and the operands it leaves: what it
prints, and its exit status (`exit(err_code)`, or `exit(0)` after the help). -/
def ls (sys : Sys) (fuel : Nat) (opts : List Char) (operands : List String) :
    Option (List Out × Nat) :=
  match parseOpts opts (Flags.init, St.init) with
  | (none, s) => some (s.out, 0)
  | (some f, s) => (lsMain sys fuel f operands s).map fun s => (s.out, s.errCode)

/-- Without `--help`, a run of `ls` is `main` with the flags the options set, from the messages
of the `switch`. -/
theorem ls_eq_some {sys : Sys} {fuel : Nat} {opts : List Char} {operands : List String}
    {out : List Out} {code : Nat} (noHelp : '\x07' ∉ opts)
    (run : ls sys fuel opts operands = some (out, code)) :
    ∃ f os t, parseOpts opts (Flags.init, St.init) = (some f, St.init.print os) ∧
      (∀ o ∈ os, o = .help ∨ ∃ c, o = .unimplemented c) ∧
      lsMain sys fuel f operands (St.init.print os) = some t ∧ out = t.out ∧ code = t.errCode := by
  obtain ⟨os, e, printed⟩ := parseOpts_snd opts Flags.init St.init
  have parsed := (parseOpts_isSome opts Flags.init St.init).mpr noHelp
  unfold ls at run
  generalize parseOpts opts (Flags.init, St.init) = r at e parsed run
  obtain ⟨_ | f, s⟩ := r
  · cases parsed
  · obtain ⟨t, listed, ⟨⟩⟩ := Option.map_eq_some'.mp run
    cases e
    exact ⟨f, os, t, rfl, printed, listed, rfl, rfl⟩

/-! ## Termination -/

theorem isDir_fst (sys : Sys) (path : String) (s t : St) : (isDir sys path s).1 = (isDir sys path t).1 := by
  unfold isDir; cases sys.stat path <;> rfl

/-- The paths the second loop of `list_dir` may enter from `dir`: its entries other than `.` and
`..` that `is_dir` finds directories. -/
def subdirs (sys : Sys) (dir : String) : List String :=
  match sys.readdir dir with
  | .error _ => []
  | .ok (names, _) =>
    ((names.filter fun name => !isDotOrDotdot name).map (joinPath dir)).filter fun path =>
      (isDir sys path St.init).1

theorem mem_subdirs {sys : Sys} {dir name : String} {names : List String} {endErr : Option Errno}
    (hr : sys.readdir dir = .ok (names, endErr)) (mem : name ∈ names) (dot : isDotOrDotdot name = false)
    {s : St} (hd : (isDir sys (joinPath dir name) s).1 = true) : joinPath dir name ∈ subdirs sys dir := by
  rw [isDir_fst _ _ _ St.init] at hd
  simp only [subdirs, hr, List.mem_filter, List.mem_map]
  exact ⟨⟨name, ⟨mem, by simp [dot]⟩, rfl⟩, hd⟩

/-- `list_dir` with `-R` goes at most `k - 1` levels below `dir`. No bound holds where a symbolic
link leads back up the tree: `stat` follows it. -/
inductive Bounded (sys : Sys) : Nat → String → Prop
  | step {k : Nat} {dir : String} :
      (∀ path ∈ subdirs sys dir, Bounded sys k path) → Bounded sys (k + 1) dir

theorem Bounded.mono {sys : Sys} {k k' : Nat} {dir : String} (h : Bounded sys k dir) (le : k ≤ k') :
    Bounded sys k' dir := by
  induction h generalizing k' with
  | step _ ih =>
    obtain ⟨j, rfl⟩ : ∃ j, k' = j + 1 := ⟨k' - 1, by omega⟩
    exact .step fun path mem => ih path mem (by omega)

theorem recurseEntries_isSome {sys : Sys} {countOnly listAll : Bool} {dirname : String}
    {listSub : String → St → Option St} {names : List String}
    (sub : ∀ name ∈ names, ∀ s, isDotOrDotdot name = false →
      (isDir sys (joinPath dirname name) s).1 = true → ∀ t, (listSub (joinPath dirname name) t).isSome)
    (s : St) : (recurseEntries sys countOnly listAll dirname listSub names s).isSome := by
  induction names generalizing s with
  | nil => rfl
  | cons name rest ih =>
    have rest_sub := fun n mem => sub n (.tail name mem)
    unfold recurseEntries
    split
    · exact ih rest_sub s
    · have dot : isDotOrDotdot name = false := by simp_all
      split
      · rename_i s₁ dir
        obtain ⟨t, ht⟩ := Option.isSome_iff_exists.mp (sub name (.head rest) s dot (by rw [dir]) _)
        rw [ht, Option.some_bind]
        exact ih rest_sub t
      · exact ih rest_sub _

/-- **Enough fuel.** From a directory whose tree below goes at most `fuel - 1` levels down,
`list_dir` comes back, whatever the flags and the state. -/
theorem listDir_isSome {sys : Sys} {countOnly listLong listAll : Bool} {fuel : Nat} {dir : String}
    (h : Bounded sys fuel dir) (recursive : Bool) (s : St) :
    (listDir sys countOnly listLong listAll fuel recursive dir s).isSome := by
  induction h generalizing recursive s with
  | @step k dir _ ih =>
    unfold listDir
    cases hr : sys.readdir dir with
    | error e => rfl
    | ok r =>
      obtain ⟨names, endErr⟩ := r
      dsimp only
      split
      · rw [Option.isSome_map']
        exact recurseEntries_isSome (fun name mem _ dot hd t => ih _ (mem_subdirs hr mem dot hd) _ _) _
      · rfl

theorem listDirOperands_isSome {sys : Sys} {f : Flags} {fuel : Nat} {multiple printedAnyFile : Bool}
    {operands : List String} (bounded : ∀ d ∈ operands, Bounded sys fuel d) (firstDir : Bool)
    (s : St) : (listDirOperands sys f fuel multiple printedAnyFile operands (firstDir, s)).isSome := by
  induction operands generalizing firstDir s with
  | nil => rfl
  | cons path rest ih =>
    have rest_bounded := fun d mem => bounded d (.tail path mem)
    unfold listDirOperands
    generalize testFile sys path s = r
    rcases r with ⟨_ | _, s₁⟩ <;> dsimp only
    · exact ih rest_bounded _ _
    · generalize isDir sys path s₁ = r
      rcases r with ⟨_ | _, s₂⟩ <;> dsimp only
      · exact ih rest_bounded _ _
      · split <;>
        · obtain ⟨t, ht⟩ :=
            Option.isSome_iff_exists.mp (listDir_isSome (bounded path (.head rest)) _ _)
          rw [ht, Option.some_bind]
          exact ih rest_bounded _ _

/-- **`ls` terminates** on every system where the directories below its starting points go at
most `k - 1` levels down, given fuel `k` or more. -/
theorem ls_terminates {sys : Sys} {k fuel : Nat} {opts : List Char} {operands : List String}
    (dot : operands = [] → Bounded sys k ".") (bounded : ∀ d ∈ operands, Bounded sys k d)
    (le : k ≤ fuel) : (ls sys fuel opts operands).isSome := by
  unfold ls
  generalize parseOpts opts (Flags.init, St.init) = r
  obtain ⟨_ | f, s⟩ := r
  · rfl
  · dsimp only
    rw [Option.isSome_map']
    unfold lsMain
    split
    · rename_i none
      have := (dot none).mono le
      split
      · rw [Option.isSome_map']
        exact listDir_isSome this _ _
      · exact listDir_isSome this _ _
    · generalize listFileOperands sys f.countOnly f.listLong operands (false, s) = r
      obtain ⟨printed, s₁⟩ := r
      dsimp only
      generalize haveDirOperand sys operands s₁ = r
      obtain ⟨haveDir, s₂⟩ := r
      rw [Option.isSome_map']
      exact listDirOperands_isSome (fun d mem => (bounded d mem).mono le) _ _

/-- A directory `d` holding a file of an owner `getpwuid` does not know, a hidden file, a
subdirectory with one file, and an entry whose `stat` fails; `missing` does not exist. The C
library is glibc's without a zone file: `getpwuid` and `getgrgid` leave `errno` at `0`, and the
first `localtime` at `ENOENT`. -/
def sampleTree : Sys where
  stat path := match path with
    | "d" | "d/." | "d/.." | "d/sub" | "d/sub/." | "d/sub/.." => .ok ⟨0o040755, 2, 0, 0, 4096, 0⟩
    | "d/f" | "d/.h" | "d/sub/g" => .ok ⟨0o100644, 1, 1000, 0, 12, 0⟩
    | _ => .error ⟨enoent, by decide⟩
  readdir path := match path with
    | "d" => .ok ([".", "..", "f", ".h", "sub", "gone"], none)
    | "d/sub" => .ok ([".", "..", "g"], none)
    | _ => .error ⟨20, by decide⟩
  getpwuid uid := if uid = 0 then some "root" else none
  getgrgid _ := some "wheel"
  getpwuidErrno _ := some 0
  getgrgidErrno _ := some 0
  localtimeErrno first := if first then some enoent else none
  now := 0
  strftime format _ := format

theorem sampleTree_terminates :
    Bounded sampleTree 2 "d" ∧ (ls sampleTree 2 ['R', 'l'] ["missing", "d"]).isSome := by
  have leaf (d : String) (h : subdirs sampleTree d = []) : Bounded sampleTree 1 d :=
    .step (by simp [h])
  have d : Bounded sampleTree 2 "d" :=
    .step (by rw [show subdirs sampleTree "d" = ["d/sub"] by decide]; simpa using leaf _ (by decide))
  refine ⟨d, ls_terminates (k := 2) (fun h => nomatch h) (fun path mem => ?_) le_rfl⟩
  simp only [List.mem_cons, List.mem_singleton, List.not_mem_nil, or_false] at mem
  rcases mem with rfl | rfl
  · exact (leaf _ (by decide)).mono (by omega)
  · exact d

/-! ## The fuel only bounds the run -/

section Fuel

variable {sys : Sys} {countOnly listLong listAll : Bool}

theorem recurseEntries_mono {dirname : String} {listSub listSub' : String → St → Option St}
    (sub : ∀ path s t, listSub path s = some t → listSub' path s = some t) {names : List String}
    {s t : St} (run : recurseEntries sys countOnly listAll dirname listSub names s = some t) :
    recurseEntries sys countOnly listAll dirname listSub' names s = some t := by
  induction names generalizing s with
  | nil => exact run
  | cons name rest ih =>
    unfold recurseEntries at run ⊢
    split
    · rename_i skip
      rw [if_pos skip] at run
      exact ih run
    · rename_i skip
      rw [if_neg skip] at run
      generalize isDir sys (joinPath dirname name) s = r at run ⊢
      rcases r with ⟨_ | _, s₁⟩ <;> dsimp only at run ⊢
      · exact ih run
      · obtain ⟨t₁, sub₁, rest₁⟩ := Option.bind_eq_some.mp run
        rw [sub _ _ _ sub₁, Option.some_bind]
        exact ih rest₁

theorem listDir_succ {fuel : Nat} {recursive : Bool} {dir : String} {s t : St}
    (run : listDir sys countOnly listLong listAll fuel recursive dir s = some t) :
    listDir sys countOnly listLong listAll (fuel + 1) recursive dir s = some t := by
  induction fuel generalizing recursive dir s t with
  | zero => cases run
  | succ fuel ih =>
    unfold listDir at run ⊢
    generalize sys.readdir dir = r at run ⊢
    rcases r with e | ⟨names, endErr⟩
    · exact run
    · dsimp only at run ⊢
      split at run
      · obtain ⟨t₁, sub, rfl⟩ := Option.map_eq_some'.mp run
        rw [if_pos ‹_›, recurseEntries_mono (fun _ _ _ h => ih h) sub]
        rfl
      · rwa [if_neg ‹_›]

theorem listDir_mono {fuel fuel' : Nat} {recursive : Bool} {dir : String} {s t : St}
    (run : listDir sys countOnly listLong listAll fuel recursive dir s = some t)
    (le : fuel ≤ fuel') :
    listDir sys countOnly listLong listAll fuel' recursive dir s = some t := by
  induction le with
  | refl => exact run
  | step _ ih => exact listDir_succ ih

theorem listDirOperands_mono {f : Flags} {fuel fuel' : Nat} {multiple printedAnyFile : Bool}
    (le : fuel ≤ fuel') {operands : List String} {firstDir : Bool} {s t : St}
    (run : listDirOperands sys f fuel multiple printedAnyFile operands (firstDir, s) = some t) :
    listDirOperands sys f fuel' multiple printedAnyFile operands (firstDir, s) = some t := by
  induction operands generalizing firstDir s with
  | nil => exact run
  | cons path rest ih =>
    unfold listDirOperands at run ⊢
    generalize testFile sys path s = r at run ⊢
    rcases r with ⟨_ | _, s₁⟩ <;> dsimp only at run ⊢
    · exact ih run
    · generalize isDir sys path s₁ = r at run ⊢
      rcases r with ⟨_ | _, s₂⟩ <;> dsimp only at run ⊢
      · exact ih run
      · by_cases header : (!f.countOnly && (multiple || f.recursive)) = true <;>
          simp only [header, ↓reduceIte, Bool.false_eq_true] at run ⊢ <;>
        · obtain ⟨t₁, listed, rest₁⟩ := Option.bind_eq_some.mp run
          rw [listDir_mono listed le, Option.some_bind]
          exact ih rest₁

theorem lsMain_mono {f : Flags} {fuel fuel' : Nat} (le : fuel ≤ fuel') {operands : List String}
    {s t : St} (run : lsMain sys fuel f operands s = some t) :
    lsMain sys fuel' f operands s = some t := by
  unfold lsMain at run ⊢
  split at run
  · rw [if_pos ‹_›]
    split at run
    · obtain ⟨t₁, dot, rfl⟩ := Option.map_eq_some'.mp run
      rw [if_pos ‹_›, listDir_mono dot le]
      rfl
    · rw [if_neg ‹_›]
      exact listDir_mono run le
  · rw [if_neg ‹_›]
    generalize listFileOperands sys f.countOnly f.listLong operands (false, s) = p at run ⊢
    obtain ⟨printed, s₁⟩ := p
    generalize haveDirOperand sys operands s₁ = q at run ⊢
    obtain ⟨haveDir, s₂⟩ := q
    dsimp only at run ⊢
    obtain ⟨t₁, dirs, rfl⟩ := Option.map_eq_some'.mp run
    rw [listDirOperands_mono le dirs]
    rfl

/-- **The fuel only bounds the run.** A run of `ls` that comes back with some fuel comes back
with the same output and exit status with any more: the result does not depend on the bound. -/
theorem ls_fuel_mono {fuel fuel' : Nat} {opts : List Char} {operands : List String}
    {r : List Out × Nat} (run : ls sys fuel opts operands = some r) (le : fuel ≤ fuel') :
    ls sys fuel' opts operands = some r := by
  unfold ls at run ⊢
  generalize parseOpts opts (Flags.init, St.init) = p at run ⊢
  obtain ⟨_ | f, s⟩ := p
  · exact run
  · obtain ⟨t, listed, rfl⟩ := Option.map_eq_some'.mp run
    exact congrArg (Option.map _) (lsMain_mono le listed)

end Fuel

end Labs.Ls

import Labs.Ls.Lockstep

/-!
# `-n` is the listing seen through a count

Under `-n` (`g_count_only`), `list_file` counts a file where it would print its line, before it
reads `list_long`, and `list_dir` and `main` print no header and no blank line. Everything else
is as in the run without `-n` and without `-l`: the same calls in the same order, the same failing
`stat`s, the same `errno`, the same error lines. So the state of a run under `-n` is a function of
the state of that run (`countView`): the messages it printed, the number of its lines for files,
and the bits of those messages. The run with `-l` and without `-n` is not such a run: its
lookups write `errno`, which decides the reports of an error reading a directory.

* `countView_lockstep`, `countView_lsMain`: `-n` goes in lockstep with the run without `-n` and
  `-l`, through `countView`.
* `ls_count_ignores_long`: under `-n`, `-l` changes nothing.
* `ls_count_only`: `ls -n` prints the messages of `ls` without `-n` and `-l`, then the number of
  lines that run printed for files, and exits with the bits of the messages.
-/

namespace Labs.Ls

/-- A line for a file, short or long. -/
def Out.isEntry : Out → Bool
  | .short .. | .long .. => true
  | _ => false

/-- What `-n` does not print: the lines for files, the headers and the blank lines. -/
def Out.isListing : Out → Bool
  | .short .. | .long .. | .header _ | .blank => true
  | _ => false

/-- The state of the run under `-n`, from the state of the same run without it. -/
def countView (s : St) : St where
  errCode := exitOf (s.out.filter fun o => !o.isListing)
  errno := s.errno
  count := s.out.countP Out.isEntry
  out := s.out.filter fun o => !o.isListing
  localtimeCalled := s.localtimeCalled

@[simp] theorem countView_errno (s : St) : (countView s).errno = s.errno := rfl

theorem countView_fail (s : St) (e : Errno) : countView (s.fail e) = (countView s).fail e := rfl

theorem countView_clearErrno (s : St) : countView { s with errno := 0 } = { countView s with errno := 0 } :=
  rfl

/-- Headers and blank lines are not seen under `-n`. -/
theorem countView_print_layout (s : St) (os : List Out)
    (layout : ∀ o ∈ os, o.isListing = true ∧ o.isEntry = false) : countView (s.print os) = countView s := by
  have hidden : (os.filter fun o => !o.isListing) = [] :=
    List.filter_eq_nil_iff.mpr fun o mem => by simp [(layout o mem).1]
  have uncounted : os.countP Out.isEntry = 0 :=
    List.countP_eq_zero.mpr fun o mem => by simp [(layout o mem).2]
  simp only [countView, St.print_out, St.print_errno, St.print_localtimeCalled, List.filter_append,
    hidden, List.append_nil,
    List.countP_append, uncounted, Nat.add_zero]

theorem countView_handleError (what path : String) (s : St) :
    countView (handleError what path s) = handleError what path (countView s) := by
  simp only [countView, handleError, List.filter_append, List.countP_append, exitOf_append]
  simp [Out.isListing, Out.isEntry, Out.bits, Nat.lor_assoc]

theorem countView_checkReadError (dirname : String) (s : St) :
    countView (checkReadError dirname s) = checkReadError dirname (countView s) := by
  unfold checkReadError
  rw [countView_errno]
  split
  · exact countView_handleError _ _ s
  · rfl

/-- `list_file` under `-n` counts what it would print without `-l`, whatever `list_long`. -/
theorem countView_listFile (sys : Sys) (path name : String) (listLong' : Bool) (s : St) :
    listFile sys true path name listLong' (countView s) =
      countView (listFile sys false path name false s) := by
  unfold listFile
  cases sys.stat path with
  | error e => simp [countView_handleError, countView_fail]
  | ok sb =>
    simp only [if_true, Bool.false_eq_true, if_false]
    simp [countView, St.print, List.filter_append, List.countP_append, Out.isListing, Out.isEntry]

/-- `-n` goes in lockstep with the run without `-n` and `-l`, through `countView`. -/
theorem countView_lockstep (sys : Sys) (listLong' : Bool) :
    Lockstep sys false false true listLong' fun a b => b = countView a where
  fail e h := by rw [h, countView_fail]
  clearErrno h := by rw [h, countView_clearErrno]
  report what path e h := by rw [h, countView_handleError, countView_fail]
  checkReadError dirname h := by rw [h, countView_checkReadError]
  listFile path name h := by rw [h, countView_listFile]
  layout os layout h := by
    rw [h]
    exact (countView_print_layout _ os fun o mem => by
      rcases layout o mem with rfl | ⟨_, rfl⟩ <;> exact ⟨rfl, rfl⟩).symm

/-- **`main` under `-n`** is `main` without `-n` and `-l`, seen through `countView`, with the
count printed at the end. -/
theorem countView_lsMain (sys : Sys) (fuel : Nat) {f : Flags} (plain : f.countOnly = false)
    (short : f.listLong = false) (listLong' : Bool) (operands : List String) (s : St) :
    lsMain sys fuel { f with countOnly := true, listLong := listLong' } operands (countView s) =
      (lsMain sys fuel f operands s).map fun t =>
        (countView t).print [.count (countView t).count] := by
  have run := (countView_lockstep sys listLong').lsMain (countView_lockstep sys false) plain short
    fuel operands (a := s) rfl
  exact (run.mono fun ⟨_, _, e, ha, hb⟩ => by subst ha hb e; rfl).eq_map

/-! ## `-l` under `-n` -/

/-- Under `-n`, `list_file` counts a file before it reads `list_long`: the run with `-l` and the
run without it have the same states. -/
theorem countOnly_lockstep (sys : Sys) (listLong : Bool) :
    Lockstep sys true listLong true false Eq where
  fail _ h := h ▸ rfl
  clearErrno h := h ▸ rfl
  report _ _ _ h := h ▸ rfl
  checkReadError _ h := h ▸ rfl
  listFile path _ h := by subst h; unfold listFile; cases sys.stat path <;> rfl
  layout _ _ h := h ▸ rfl

theorem lsMain_count_long (sys : Sys) (fuel : Nat) (f : Flags) (count : f.countOnly = true)
    (operands : List String) (s : St) :
    lsMain sys fuel { f with listLong := false } operands s = lsMain sys fuel f operands s := by
  have run := (countOnly_lockstep sys f.listLong).lsMain (countOnly_lockstep sys false) count rfl
    fuel operands (a := s) rfl
  have same : { f with countOnly := true, listLong := false } = { f with listLong := false } := by
    rw [← count]
  rw [← same]
  simpa using run.map_eq (f := id) (g := id) fun ⟨_, _, e, ha, hb⟩ => by subst e ha hb; rfl

/-- **Under `-n`, `-l` changes nothing.** `list_file` counts a file before it reads `list_long`,
and `main` lists `.` with `list_long` off under `-n`: with `n` among the options, `ls` prints the
same and exits the same, for every system and operand list, with `l` among them and without it. -/
theorem ls_count_ignores_long {sys : Sys} {fuel : Nat} {opts : List Char} {operands : List String}
    (count : 'n' ∈ opts) :
    ls sys fuel (opts.filter (· != 'l')) operands = ls sys fuel opts operands := by
  unfold ls
  rcases parseOpts_filter_cases (c := 'l') (by simp) opts with ⟨s, e, e'⟩ | ⟨g, g', s, e, e'⟩
  · rw [e, e']
  · have flags : g' = { g with listLong := false } := by
      rw [parseOpts_flags e, parseOpts_flags e']
      simp [List.mem_filter, Flags.init]
    have countFlag : g.countOnly = true := by rw [parseOpts_flags e]; simp [Flags.init, count]
    rw [e, e', flags]
    exact congrArg (Option.map _) (lsMain_count_long sys fuel g countFlag operands s)

theorem sampleTree_count_ignores_long :
    'n' ∈ ['l', 'n'] ∧
      ls sampleTree 2 (['l', 'n'].filter (· != 'l')) ["d"] = ls sampleTree 2 ['l', 'n'] ["d"] :=
  ⟨by decide, ls_count_ignores_long (by decide)⟩

/-! ## `ls -n` -/

/-- What the `switch` prints is seen as it is under `-n`. -/
theorem countView_parsed (opts : List Char) (f : Flags) :
    countView (parseOpts opts (f, St.init)).2 = (parseOpts opts (f, St.init)).2 := by
  obtain ⟨os, e, printed⟩ := parseOpts_snd opts f St.init
  have message (o) (mem : o ∈ os) : o.isListing = false ∧ o.isEntry = false ∧ o.bits = 0 := by
    rcases printed o mem with rfl | ⟨c, rfl⟩ <;> exact ⟨rfl, rfl, rfl⟩
  rw [e]
  simp only [countView, St.print, St.init, List.nil_append]
  rw [List.filter_eq_self.mpr fun o mem => by simp [(message o mem).1],
    List.countP_eq_zero.mpr fun o mem => by simp [(message o mem).2.1],
    exitOf_eq_zero_iff.mpr fun o mem => (message o mem).2.2]

/-- What `ls -n` prints and its exit status, from what `ls` without `-n` printed: the messages,
the count of lines for files, and the bits of the messages. -/
def countResult (out : List Out) : List Out × Nat :=
  (out.filter (fun o => !o.isListing) ++ [.count (out.countP Out.isEntry)],
    exitOf (out.filter fun o => !o.isListing))

/-- **`ls -n`.** Without `--help`, `ls` with `-n` prints the error lines and the option messages
of `ls` without `-n` and without `-l`, in the same order, then the number of lines that run
printed for files; and it exits with the bits of those messages. Under `-n`, `list_file` returns
before the lookups of `-l`, which write `errno`; so the run to compare with is the one without
`-l` too. -/
theorem ls_count_only {sys : Sys} {fuel : Nat} {opts : List Char} {operands : List String}
    (count : 'n' ∈ opts) (noHelp : '\x07' ∉ opts) :
    ls sys fuel opts operands =
      (ls sys fuel ((opts.filter (· != 'n')).filter (· != 'l')) operands).map fun r =>
        countResult r.1 := by
  have someFlags := (parseOpts_isSome opts Flags.init St.init).mpr noHelp
  unfold ls
  rcases parseOpts_filter_cases (c := 'n') (by simp) opts with ⟨s, e, -⟩ | ⟨g, g₁, s, e, e₁⟩
  · rw [e] at someFlags
    cases someFlags
  rcases parseOpts_filter_cases (c := 'l') (by simp) (opts.filter (· != 'n')) with
    ⟨s', e₁', -⟩ | ⟨g₁', g₀, s', e₁', e₀⟩ <;> rw [e₁] at e₁' <;> cases e₁'
  have flags : { g with listLong := false } = { g₀ with countOnly := true, listLong := false } := by
    rw [parseOpts_flags e, parseOpts_flags e₀]
    simp [List.mem_filter, Flags.init, count]
  have plain : g₀.countOnly = false ∧ g₀.listLong = false := by
    rw [parseOpts_flags e₀]
    simp [List.mem_filter, Flags.init]
  have countFlag : g.countOnly = true := by rw [parseOpts_flags e]; simp [Flags.init, count]
  have parsed := countView_parsed ((opts.filter (· != 'n')).filter (· != 'l')) Flags.init
  rw [e₀] at parsed
  have key := countView_lsMain sys fuel plain.1 plain.2 false operands s
  rw [parsed] at key
  rw [e, e₀]
  dsimp only
  rw [← lsMain_count_long sys fuel g countFlag, flags, key, Option.map_map, Option.map_map]
  rfl

theorem sampleTree_count_only :
    'n' ∈ ['R', 'l', 'n'] ∧ '\x07' ∉ ['R', 'l', 'n'] ∧
      ls sampleTree 2 ['R', 'l', 'n'] ["missing", "d"] =
        (ls sampleTree 2 ((['R', 'l', 'n'].filter (· != 'n')).filter (· != 'l'))
          ["missing", "d"]).map fun r => countResult r.1 :=
  ⟨by decide, by decide, ls_count_only (by decide) (by decide)⟩

end Labs.Ls

import Labs.Ls.Run

/-!
# How `ls` reports errors

Two consequences of where `main.c` calls `stat` and reads `errno`:

* `listDir_read_error`: `list_dir` clears `errno` before its first loop and checks it after, but
  the `stat` of each entry in `list_file` can set it too. So without `-R`, and without the
  lookups of `-l` (which write `errno` too), "error reading directory" is reported exactly when
  `readdir` failed or the `stat` of a listed entry failed, which a dangling symbolic link is
  enough for; `listDir_read_error_errno`: the `errno` it prints is then that of the last such
  `stat`.
* `ls_repeats_missing_operand`: each of the three loops of `main` calls `test_file` on the
  operands, and `test_file` reports a failing `stat`. So an operand that cannot be reached is
  reported at least twice, and three times when no operand is a directory.
-/

namespace Labs.Ls

/-! ## `errno` after the first loop of `list_dir` -/

/-- Without the lookups of `-l`, only a failing `stat` writes `errno` in `list_file`. -/
theorem listFile_errno (sys : Sys) (countOnly : Bool) (path name : String) (listLong : Bool) (s : St)
    (noLookups : countOnly = true ∨ listLong = false) :
    (listFile sys countOnly path name listLong s).errno ≠ 0 ↔
      s.errno ≠ 0 ∨ ∃ e, sys.stat path = .error e := by
  unfold listFile
  cases sys.stat path with
  | error e => simp [e.pos.ne']
  | ok sb => cases countOnly <;> cases listLong <;> simp at noLookups ⊢

/-- After the first loop, `errno` is not `0` exactly when it was not before, or the `stat` of an
entry the loop listed failed. -/
theorem listEntries_errno (sys : Sys) (countOnly listLong listAll : Bool)
    (noLookups : countOnly = true ∨ listLong = false) (dirname : String) (names : List String) (s : St) :
    (listEntries sys countOnly listLong listAll dirname names s).errno ≠ 0 ↔
      s.errno ≠ 0 ∨ ∃ name ∈ names, (listAll || !startsWithDot name) = true ∧
        ∃ e, sys.stat (joinPath dirname name) = .error e := by
  induction names generalizing s with
  | nil => simp [listEntries]
  | cons name rest ih =>
    rw [listEntries, ih]
    cases listed : (listAll || !startsWithDot name)
    · have hidden : (!listAll && startsWithDot name) = true := by
        revert listed; cases listAll <;> cases startsWithDot name <;> simp
      rw [if_pos hidden]
      simp only [List.mem_cons, exists_eq_or_imp, listed, Bool.false_eq_true, false_and, false_or]
    · have shown : (!listAll && startsWithDot name) = false := by
        revert listed; cases listAll <;> cases startsWithDot name <;> simp
      rw [if_neg (by simp [shown]), listFile_errno _ _ _ _ _ _ noLookups]
      simp only [List.mem_cons, exists_eq_or_imp, listed, true_and, or_assoc]

/-- The first loop prints no "error reading directory". -/
theorem listEntries_out (sys : Sys) (countOnly listLong listAll : Bool) (dirname : String)
    (names : List String) (s : St) :
    ∃ os, (listEntries sys countOnly listLong listAll dirname names s).out = s.out ++ os ∧
      ∀ e, .error "error reading directory" dirname e ∉ os := by
  induction names generalizing s with
  | nil => exact ⟨[], by simp [listEntries], by simp⟩
  | cons name rest ih =>
    have head : ∃ os, (if (!listAll && startsWithDot name) = true then s
        else listFile sys countOnly (joinPath dirname name) name listLong s).out = s.out ++ os ∧
        ∀ e, .error "error reading directory" dirname e ∉ os := by
      split
      · exact ⟨[], by simp, by simp⟩
      · unfold listFile
        split
        · exact ⟨_, rfl, by simp⟩
        · split
          · exact ⟨[], by simp, by simp⟩
          · split <;> exact ⟨_, rfl, by simp⟩
    obtain ⟨os₁, h₁, no₁⟩ := head
    obtain ⟨os₂, h₂, no₂⟩ := ih (if (!listAll && startsWithDot name) = true then s
      else listFile sys countOnly (joinPath dirname name) name listLong s)
    refine ⟨os₁ ++ os₂, by rw [listEntries, h₂, h₁, List.append_assoc], fun e mem => ?_⟩
    rcases List.mem_append.mp mem with mem | mem
    exacts [no₁ e mem, no₂ e mem]

/-- **A failing `stat` is reported as an error reading the directory.** Without `-R`, and under
`-n` or without `-l`, `list_dir` of a directory that opens reports "error reading directory"
exactly when `readdir` ended in an error, or the `stat` of an entry it listed failed. -/
theorem listDir_read_error {sys : Sys} {countOnly listLong listAll : Bool} {fuel : Nat} {dirname : String}
    {names : List String} {endErr : Option Errno} {s t : St}
    (noLookups : countOnly = true ∨ listLong = false) (hr : sys.readdir dirname = .ok (names, endErr))
    (run : listDir sys countOnly listLong listAll (fuel + 1) false dirname s = some t) :
    ∃ os, t.out = s.out ++ os ∧
      ((∃ e, .error "error reading directory" dirname e ∈ os) ↔
        endErr.isSome ∨ ∃ name ∈ names, (listAll || !startsWithDot name) = true ∧
          ∃ e, sys.stat (joinPath dirname name) = .error e) := by
  simp only [listDir, hr, Bool.false_eq_true, if_false, Option.some.injEq] at run
  subst run
  obtain ⟨os, listed, quiet⟩ :=
    listEntries_out sys countOnly listLong listAll dirname names { s with errno := 0 }
  have errno :=
    listEntries_errno sys countOnly listLong listAll noLookups dirname names { s with errno := 0 }
  simp only [ne_eq, not_true_eq_false, false_or] at errno
  cases endErr with
  | some e =>
    refine ⟨os ++ [.error "error reading directory" dirname e.code], ?_, ?_⟩
    · simp [checkReadError, readdirEnd, e.pos.ne', listed]
    · simp
  | none =>
    simp only [checkReadError, readdirEnd]
    split
    · rename_i failed
      refine ⟨_, by rw [handleError_out, listed, List.append_assoc], ?_⟩
      exact ⟨fun _ => .inr (errno.mp failed),
        fun _ => ⟨_, List.mem_append_right _ (List.mem_singleton_self _)⟩⟩
    · rename_i failed
      refine ⟨os, listed, fun ⟨e, mem⟩ => absurd mem (quiet e), fun found => ?_⟩
      exact absurd (errno.mpr (found.resolve_left (by simp))) failed

/-- `ls d` without `-R` on `sampleTree`: the `stat` of `d/gone` fails. -/
def sampleListing : St :=
  (listDir sampleTree false false false 1 false "d" St.init).get (by with_unfolding_all decide)

theorem sampleListing_read_error :
    ∃ os, sampleListing.out = St.init.out ++ os ∧
      ((∃ e, .error "error reading directory" "d" e ∈ os) ↔
        (none : Option Errno).isSome ∨ ∃ name ∈ [".", "..", "f", ".h", "sub", "gone"],
          (false || !startsWithDot name) = true ∧ ∃ e, sampleTree.stat (joinPath "d" name) = .error e) :=
  listDir_read_error (.inr rfl) rfl
    (show listDir sampleTree false false false (0 + 1) false "d" St.init = some sampleListing from
      Option.eq_some_of_isSome _)

/-- The `errno` a failing `stat` of `path` leaves, if it fails. -/
def statErrno (sys : Sys) (path : String) : Option Nat :=
  match sys.stat path with
  | .error e => some e.code
  | .ok _ => none

theorem listFile_errno_eq (sys : Sys) (countOnly : Bool) (path name : String) (listLong : Bool)
    (s : St) (noLookups : countOnly = true ∨ listLong = false) :
    (listFile sys countOnly path name listLong s).errno = (statErrno sys path).getD s.errno := by
  unfold listFile statErrno
  cases sys.stat path with
  | error e => rfl
  | ok sb => cases countOnly <;> cases listLong <;> first | rfl | simp at noLookups

/-- After the first loop, `errno` holds the code of the last listed entry whose `stat` failed. -/
theorem listEntries_errno_eq (sys : Sys) (countOnly listLong listAll : Bool)
    (noLookups : countOnly = true ∨ listLong = false) (dirname : String) (names : List String) (s : St) :
    (listEntries sys countOnly listLong listAll dirname names s).errno =
      (((names.filter fun name => listAll || !startsWithDot name).filterMap fun name =>
        statErrno sys (joinPath dirname name)).getLast?).getD s.errno := by
  induction names generalizing s with
  | nil => rfl
  | cons name rest ih =>
    rw [listEntries, ih, List.filter_cons]
    cases listed : (listAll || !startsWithDot name)
    · have hidden : (!listAll && startsWithDot name) = true := by
        revert listed; cases listAll <;> cases startsWithDot name <;> simp
      rw [if_pos hidden]
      rfl
    · have shown : (!listAll && startsWithDot name) = false := by
        revert listed; cases listAll <;> cases startsWithDot name <;> simp
      rw [if_neg (by simp [shown]), if_pos rfl, List.filterMap_cons,
        listFile_errno_eq _ _ _ _ _ _ noLookups]
      cases statErrno sys (joinPath dirname name) <;> simp [List.getLast?_cons]

/-- **The `errno` of "error reading directory".** Without `-R`, and under `-n` or without `-l`,
when `list_dir` of a directory that opens reports "error reading directory", the `errno` it prints
is the one the final `readdir` left if it failed, and otherwise that of the last entry it listed
whose `stat` failed: the message names the directory, but the cause is a file in it. -/
theorem listDir_read_error_errno {sys : Sys} {countOnly listLong listAll : Bool} {fuel : Nat}
    {dirname : String} {names : List String} {endErr : Option Errno} {s t : St}
    (noLookups : countOnly = true ∨ listLong = false) (hr : sys.readdir dirname = .ok (names, endErr))
    (run : listDir sys countOnly listLong listAll (fuel + 1) false dirname s = some t) :
    ∃ os, t.out = s.out ++ os ∧ ∀ e, .error "error reading directory" dirname e ∈ os →
      e = (endErr.map Errno.code).getD
        (((names.filter fun name => listAll || !startsWithDot name).filterMap fun name =>
          statErrno sys (joinPath dirname name)).getLast?.getD 0) := by
  simp only [listDir, hr, Bool.false_eq_true, if_false, Option.some.injEq] at run
  subst run
  obtain ⟨os, listed, quiet⟩ :=
    listEntries_out sys countOnly listLong listAll dirname names { s with errno := 0 }
  have errno :=
    listEntries_errno_eq sys countOnly listLong listAll noLookups dirname names { s with errno := 0 }
  generalize listEntries sys countOnly listLong listAll dirname names { s with errno := 0 } = s₁
    at listed errno
  unfold checkReadError
  split
  · refine ⟨os ++ [.error "error reading directory" dirname (readdirEnd endErr s₁).errno], ?_, ?_⟩
    · cases endErr <;> simp [readdirEnd, listed]
    · intro e mem
      rcases List.mem_append.mp mem with mem | mem
      · exact absurd mem (quiet e)
      · cases List.mem_singleton.mp mem
        cases endErr <;> simp [readdirEnd, errno]
  · refine ⟨os, by cases endErr <;> simp [readdirEnd, listed], fun e mem => absurd mem (quiet e)⟩

theorem sampleListing_read_error_errno :
    ∃ os, sampleListing.out = St.init.out ++ os ∧ ∀ e, .error "error reading directory" "d" e ∈ os →
      e = ((none : Option Errno).map Errno.code).getD
        ((([".", "..", "f", ".h", "sub", "gone"].filter fun name => false || !startsWithDot name).filterMap
          fun name => statErrno sampleTree (joinPath "d" name)).getLast?.getD 0) :=
  listDir_read_error_errno (.inr rfl) rfl
    (show listDir sampleTree false false false (0 + 1) false "d" St.init = some sampleListing from
      Option.eq_some_of_isSome _)

/-! ## Operands that cannot be reached -/

theorem Grows.count_le {s t : St} (g : Grows s t) (o : Out) : s.out.count o ≤ t.out.count o := by
  obtain ⟨os, ht, -⟩ := g
  rw [ht, List.count_append]
  omega

theorem Reports.count_lt {o : Out} {s t : St} (h : Reports o s t) : s.out.count o < t.out.count o := by
  obtain ⟨os, ht, mem⟩ := h
  rw [ht, List.count_append]
  have := List.count_pos_iff.mpr mem
  omega

theorem testFile_of_error {sys : Sys} {path : String} {e : Errno} (missing : sys.stat path = .error e)
    (s : St) : testFile sys path s = (false, handleError "cannot access" path (s.fail e)) := by
  simp [testFile, missing]

theorem reports_cannotAccess (path : String) (e : Errno) (s : St) :
    Reports (.error "cannot access" path e.code) s (handleError "cannot access" path (s.fail e)) :=
  ⟨_, rfl, List.mem_singleton_self _⟩

section Operands

variable {sys : Sys} {path : String} {e : Errno}

/-- One operand of the first loop: the state only grows. -/
theorem listFileOperands_cons (countOnly listLong : Bool) (q : String) (rest : List String)
    (printed : Bool) (s : St) :
    ∃ printed' s', Grows s s' ∧ listFileOperands sys countOnly listLong (q :: rest) (printed, s) =
      listFileOperands sys countOnly listLong rest (printed', s') := by
  have g := grows sys false []
  have ht := g.testFile q s
  simp only [listFileOperands]
  generalize testFile sys q s = r at ht
  rcases r with ⟨_ | _, s₁⟩ <;> dsimp only
  · exact ⟨_, _, ht, rfl⟩
  · have hd := g.isDir q s₁
    generalize isDir sys q s₁ = r at hd
    rcases r with ⟨_ | _, s₂⟩ <;> dsimp only
    · exact ⟨_, _, g.trans ht (g.trans hd (Grows.listFile ..)), rfl⟩
    · exact ⟨_, _, g.trans ht hd, rfl⟩

/-- The first loop reports every operand whose `stat` fails. -/
theorem listFileOperands_reports (missing : sys.stat path = .error e) (countOnly listLong : Bool)
    {operands : List String} (mem : path ∈ operands) (printed : Bool) (s : St) :
    Reports (.error "cannot access" path e.code) s
      (listFileOperands sys countOnly listLong operands (printed, s)).2 := by
  induction operands generalizing printed s with
  | nil => cases mem
  | cons q rest ih =>
    by_cases hq : q = path
    · subst hq
      simp only [listFileOperands, testFile_of_error missing]
      exact (reports_cannotAccess q e s).grows
        ((grows sys false rest).listFileOperands _ _ (fun _ => id) _ _)
    · obtain ⟨printed', s₁, grown, step⟩ := listFileOperands_cons countOnly listLong q rest printed s
      rw [step]
      exact grown.reports (ih ((List.mem_cons.mp mem).resolve_left (Ne.symm hq)) _ _)

/-- The second loop reports every operand whose `stat` fails, when it meets no directory. -/
theorem haveDirOperand_reports (missing : sys.stat path = .error e) {operands : List String}
    (nodir : ∀ q ∈ operands, ∀ sb, sys.stat q = .ok sb → isDirMode sb.mode = false)
    (mem : path ∈ operands) (s : St) :
    Reports (.error "cannot access" path e.code) s (haveDirOperand sys operands s).2 := by
  induction operands generalizing s with
  | nil => cases mem
  | cons q rest ih =>
    have rest_nodir := fun q' mem' => nodir q' (.tail q mem')
    by_cases hq : q = path
    · subst hq
      simp only [haveDirOperand, testFile_of_error missing]
      exact (reports_cannotAccess q e s).grows ((grows sys false []).haveDirOperand _ _)
    · have mem' := (List.mem_cons.mp mem).resolve_left (Ne.symm hq)
      simp only [haveDirOperand, testFile, isDir]
      cases hs : sys.stat q with
      | error e' => exact Grows.reports (Appends.print _ (by simp)) (ih rest_nodir mem' _)
      | ok sb =>
        dsimp only
        rw [nodir q (.head rest) sb hs]
        exact ih rest_nodir mem' s

/-- One operand of the third loop: the state only grows. -/
theorem listDirOperands_cons {f : Flags} {fuel : Nat} {multiple printedAnyFile : Bool} {q : String}
    {rest : List String} {firstDir : Bool} {s t : St}
    (run : listDirOperands sys f fuel multiple printedAnyFile (q :: rest) (firstDir, s) = some t) :
    ∃ firstDir' s', Grows s s' ∧
      listDirOperands sys f fuel multiple printedAnyFile rest (firstDir', s') = some t := by
  have g := grows sys f.listAll []
  have ht := g.testFile q s
  simp only [listDirOperands] at run
  generalize testFile sys q s = r at ht run
  rcases r with ⟨_ | _, s₁⟩ <;> dsimp only at run
  · exact ⟨_, _, ht, run⟩
  · have hd := g.isDir q s₁
    generalize isDir sys q s₁ = r at hd run
    rcases r with ⟨_ | _, s₂⟩ <;> dsimp only at run
    · exact ⟨_, _, g.trans ht hd, run⟩
    · split at run <;> obtain ⟨s₃, listed, run⟩ := Option.bind_eq_some.mp run
      · refine ⟨_, _, g.trans ht (g.trans hd (g.trans (g.layout _ _ ?_) (g.listDir listed))), run⟩
        split <;> simp
      · exact ⟨_, _, g.trans ht (g.trans hd (g.listDir listed)), run⟩

/-- The third loop reports every operand whose `stat` fails. -/
theorem listDirOperands_reports (missing : sys.stat path = .error e) {f : Flags} {fuel : Nat}
    {multiple printedAnyFile : Bool} {operands : List String} (mem : path ∈ operands)
    {firstDir : Bool} {s t : St}
    (run : listDirOperands sys f fuel multiple printedAnyFile operands (firstDir, s) = some t) :
    Reports (.error "cannot access" path e.code) s t := by
  induction operands generalizing firstDir s with
  | nil => cases mem
  | cons q rest ih =>
    by_cases hq : q = path
    · subst hq
      simp only [listDirOperands, testFile_of_error missing] at run
      exact (reports_cannotAccess q e s).grows ((grows sys f.listAll []).listDirOperands rfl run)
    · obtain ⟨firstDir', s₁, grown, run⟩ := listDirOperands_cons run
      exact grown.reports (ih ((List.mem_cons.mp mem).resolve_left (Ne.symm hq)) run)

/-- `main` reports an operand that cannot be reached in its first and third loops, and in its
second too when no operand is a directory. -/
theorem lsMain_repeats (missing : sys.stat path = .error e) {fuel : Nat} {f : Flags}
    {operands : List String} (mem : path ∈ operands) {s t : St}
    (run : lsMain sys fuel f operands s = some t) :
    s.out.count (.error "cannot access" path e.code) + 2 ≤
        t.out.count (.error "cannot access" path e.code) ∧
      ((∀ q ∈ operands, ∀ sb, sys.stat q = .ok sb → isDirMode sb.mode = false) →
        s.out.count (.error "cannot access" path e.code) + 3 ≤
          t.out.count (.error "cannot access" path e.code)) := by
  have g := grows sys f.listAll operands
  simp only [lsMain, List.ne_nil_of_mem mem, if_false] at run
  have first := listFileOperands_reports missing f.countOnly f.listLong mem false s
  generalize listFileOperands sys f.countOnly f.listLong operands (false, s) = r at first run
  obtain ⟨printed, s₁⟩ := r
  have second := g.haveDirOperand operands s₁
  have second' := fun nodir => haveDirOperand_reports missing nodir mem s₁
  dsimp only at run first
  generalize haveDirOperand sys operands s₁ = r at second second' run
  obtain ⟨haveDir, s₂⟩ := r
  obtain ⟨s₄, listed, rfl⟩ := Option.map_eq_some'.mp run
  dsimp only at second second' listed
  have blank : Grows s₂
      (if (!f.countOnly && printed && haveDir) = true then s₂.print [.blank] else s₂) := by
    split
    · exact g.layout _ _ (by simp)
    · exact g.refl _
  have last : Grows s₄ (if f.countOnly = true then s₄.print [.count s₄.count] else s₄) := by
    split
    · exact g.layout _ _ (by simp)
    · exact g.refl _
  have c₁ := first.count_lt
  have c₂ := second.count_le (.error "cannot access" path e.code)
  have c₃ := blank.count_le (.error "cannot access" path e.code)
  have c₄ := (listDirOperands_reports missing mem listed).count_lt
  have c₅ := last.count_le (.error "cannot access" path e.code)
  refine ⟨by omega, fun nodir => ?_⟩
  have c₂' := (second' nodir).count_lt
  omega

end Operands

/-- **An operand that cannot be reached is reported more than once.** Unless `--help` ends it
first, `ls` prints "cannot access" for an operand whose `stat` fails at least twice, and at least
three times when no operand is a directory: each loop of `main` calls `test_file` on it, and the
second loop runs until it meets a directory. -/
theorem ls_repeats_missing_operand {sys : Sys} {fuel : Nat} {opts : List Char}
    {operands : List String} {out : List Out} {code : Nat} {path : String} {e : Errno}
    (noHelp : '\x07' ∉ opts) (run : ls sys fuel opts operands = some (out, code))
    (mem : path ∈ operands) (missing : sys.stat path = .error e) :
    2 ≤ out.count (.error "cannot access" path e.code) ∧
      ((∀ q ∈ operands, ∀ sb, sys.stat q = .ok sb → isDirMode sb.mode = false) →
        3 ≤ out.count (.error "cannot access" path e.code)) := by
  obtain ⟨f, os, t, -, -, listed, rfl, -⟩ := ls_eq_some noHelp run
  obtain ⟨twice, thrice⟩ := lsMain_repeats missing mem listed
  exact ⟨by omega, fun nodir => by have := thrice nodir; omega⟩

/-- `ls missing d/f` on `sampleTree`. -/
def sampleMissing : List Out × Nat :=
  (ls sampleTree 2 [] ["missing", "d/f"]).get (by with_unfolding_all decide)

theorem sampleMissing_repeats :
    2 ≤ sampleMissing.1.count (.error "cannot access" "missing" enoent) ∧
      ((∀ q ∈ ["missing", "d/f"], ∀ sb, sampleTree.stat q = .ok sb → isDirMode sb.mode = false) →
        3 ≤ sampleMissing.1.count (.error "cannot access" "missing" enoent)) :=
  ls_repeats_missing_operand (by decide)
    (show ls sampleTree 2 [] ["missing", "d/f"] = some sampleMissing from Option.eq_some_of_isSome _)
    (by decide) (show sampleTree.stat "missing" = .error ⟨enoent, by decide⟩ from rfl)

end Labs.Ls

import Labs.Ls.Run

/-!
# What `ls` lists

* `ls_hides_dotfiles`: without `-a`, `ls` prints a line for a file whose name starts with `.` only
  for an operand named on the command line: `list_dir` skips such entries at every depth of the
  recursion, and never enters such a directory.
* `listDir_entries`: without `-R`, `list_dir` prints one line per entry, in the order `readdir`
  gives them, for exactly the entries `-a` does not skip whose `stat` succeeds.
* `listDir_headers`: under `-R`, `list_dir` prints a `path:` header exactly for the directories
  below its own (`Below`), at every depth.
* `ls_files_first`: the operands that are files are listed first, in order, before any header.
-/

namespace Labs.Ls

/-- The name on a line for a file. -/
def Out.entryName? : Out → Option String
  | .short name _ => some name
  | .long _ _ _ _ _ _ _ name _ => some name
  | _ => none

/-! ## Hidden files -/

/-- `o` is no line for a file whose name starts with `.`, unless for the last component of one of
`operands`. -/
def Shown (operands : List String) (o : Out) : Prop :=
  ∀ name, o.entryName? = some name → startsWithDot name = true →
    ∃ path ∈ operands, lastComponent path = name

theorem listFile_shown {sys : Sys} {operands : List String} {countOnly : Bool} {path name : String}
    {listLong : Bool} {s : St} (named : startsWithDot name = true → ∃ p ∈ operands, lastComponent p = name) :
    Appends (Shown operands) s (listFile sys countOnly path name listLong s) := by
  unfold listFile; split
  · exact Appends.print _ (by simp [Shown, Out.entryName?])
  · split
    · exact Appends.refl _ s
    · split <;> exact ⟨_, rfl, by simpa [Shown, Out.entryName?] using named⟩

/-- Without `-a`, every step of `ls` prints only lines that are `Shown`. -/
theorem shown (sys : Sys) (operands : List String) :
    StepRel sys false operands (Appends (Shown operands)) where
  refl := Appends.refl _
  trans := Appends.trans
  fail s _ := Appends.refl _ s
  clearErrno s := Appends.refl _ s
  handleError _ _ s := Appends.print s (by simp [Shown, Out.entryName?])
  listEntry _ _ _ _ _ listed := listFile_shown fun hidden => by simp [hidden] at listed
  listOperand _ path _ _ given := listFile_shown fun _ => ⟨path, given, rfl⟩
  layout s _ layout := Appends.print s fun o mem => by
    rcases layout o mem with rfl | ⟨_, rfl⟩ | ⟨_, rfl⟩ <;> simp [Shown, Out.entryName?]

/-- **Hidden files.** Without `-a`, every line `ls` prints for a file whose name starts with `.` is
for an operand named on the command line, at every depth of `-R`. -/
theorem ls_hides_dotfiles {sys : Sys} {fuel : Nat} {opts : List Char} {operands : List String}
    {out : List Out} {code : Nat} (noAll : 'a' ∉ opts)
    (run : ls sys fuel opts operands = some (out, code)) :
    ∀ o ∈ out, ∀ name, o.entryName? = some name → startsWithDot name = true →
      ∃ path ∈ operands, lastComponent path = name := by
  obtain ⟨os, e, printed⟩ := parseOpts_snd opts Flags.init St.init
  have parsed : ∀ o ∈ (parseOpts opts (Flags.init, St.init)).2.out, Shown operands o := by
    rw [e]
    intro o mem
    rcases printed o (by simpa [St.init] using mem) with rfl | ⟨_, rfl⟩ <;>
      simp [Shown, Out.entryName?]
  unfold ls at run
  generalize hp : parseOpts opts (Flags.init, St.init) = r at parsed run
  obtain ⟨_ | f, s⟩ := r
  · cases run
    exact parsed
  · obtain ⟨t, listed, ⟨⟩⟩ := Option.map_eq_some'.mp run
    have hf : f.listAll = false := by
      rw [parseOpts_flags hp]
      simp [Flags.init, noAll]
    obtain ⟨os', ht, new⟩ := (shown sys operands).lsMain hf listed
    intro o mem
    rw [ht] at mem
    rcases List.mem_append.mp mem with mem | mem
    exacts [parsed o mem, new o mem]

/-- `ls -R d` on `sampleTree`: `.h` is not listed. -/
def sampleRecursive : List Out × Nat :=
  (ls sampleTree 2 ['R'] ["d"]).get (by with_unfolding_all decide)

theorem sampleRecursive_hides_dotfiles :
    'a' ∉ ['R'] ∧ ∀ o ∈ sampleRecursive.1, ∀ name, o.entryName? = some name →
      startsWithDot name = true → ∃ path ∈ ["d"], lastComponent path = name :=
  ⟨by decide, ls_hides_dotfiles (by decide)
    (show ls sampleTree 2 ['R'] ["d"] = some sampleRecursive from Option.eq_some_of_isSome _)⟩

/-! ## One directory -/

/-- Without `-n`, `list_file` prints one line, under `name`, when the `stat` of `path` succeeds. -/
theorem listFile_entryNames (sys : Sys) (path name : String) (listLong : Bool) (s : St) :
    ∃ os, (listFile sys false path name listLong s).out = s.out ++ os ∧
      os.filterMap Out.entryName? = if (sys.stat path).isOk then [name] else [] := by
  unfold listFile
  cases sys.stat path with
  | error e => exact ⟨_, rfl, rfl⟩
  | ok sb =>
    simp only [Bool.false_eq_true, if_false]
    split <;> exact ⟨_, rfl, rfl⟩

theorem listEntries_entryNames (sys : Sys) (listLong listAll : Bool) (dirname : String)
    (names : List String) (s : St) :
    ∃ os, (listEntries sys false listLong listAll dirname names s).out = s.out ++ os ∧
      os.filterMap Out.entryName? = names.filter fun name =>
        (listAll || !startsWithDot name) && (sys.stat (joinPath dirname name)).isOk := by
  induction names generalizing s with
  | nil => exact ⟨[], by simp [listEntries], rfl⟩
  | cons name rest ih =>
    rw [listEntries, List.filter_cons]
    split
    · rename_i hidden
      obtain ⟨os, h, e⟩ := ih s
      have skipped : (listAll || !startsWithDot name) = false := by cases listAll <;> simp_all
      exact ⟨os, h, by rw [e, skipped, Bool.false_and, if_neg Bool.false_ne_true]⟩
    · rename_i shown
      have listed : (listAll || !startsWithDot name) = true := by cases listAll <;> simp_all
      obtain ⟨os₁, h₁, e₁⟩ := listFile_entryNames sys (joinPath dirname name) name listLong s
      obtain ⟨os₂, h₂, e₂⟩ := ih (listFile sys false (joinPath dirname name) name listLong s)
      refine ⟨os₁ ++ os₂, by rw [h₂, h₁, List.append_assoc], ?_⟩
      rw [List.filterMap_append, e₁, e₂, listed, Bool.true_and]
      split <;> simp_all

/-- **One directory.** Without `-R` and `-n`, `list_dir` of a directory that opens prints one line
per entry, in the order `readdir` gives them, for exactly the entries `-a` does not skip whose
`stat` succeeds. -/
theorem listDir_entries {sys : Sys} {listLong listAll : Bool} {fuel : Nat} {dirname : String}
    {names : List String} {endErr : Option Errno} {s t : St}
    (hr : sys.readdir dirname = .ok (names, endErr))
    (run : listDir sys false listLong listAll (fuel + 1) false dirname s = some t) :
    ∃ os, t.out = s.out ++ os ∧ os.filterMap Out.entryName? = names.filter fun name =>
      (listAll || !startsWithDot name) && (sys.stat (joinPath dirname name)).isOk := by
  simp only [listDir, hr, Bool.false_eq_true, if_false, Option.some.injEq] at run
  subst run
  obtain ⟨os, listed, entries⟩ :=
    listEntries_entryNames sys listLong listAll dirname names { s with errno := 0 }
  have closing : Appends (fun o => o.entryName? = none)
      (listEntries sys false listLong listAll dirname names { s with errno := 0 })
      (checkReadError dirname (readdirEnd endErr
        (listEntries sys false listLong listAll dirname names { s with errno := 0 }))) := by
    refine Appends.trans (t := readdirEnd endErr _) (by cases endErr <;> exact Appends.refl _ _) ?_
    unfold checkReadError; split
    · exact Appends.print _ (by simp [Out.entryName?])
    · exact Appends.refl _ _
  obtain ⟨more, h, unnamed⟩ := closing
  refine ⟨os ++ more, by rw [h, listed, List.append_assoc], ?_⟩
  rw [List.filterMap_append, entries, List.filterMap_eq_nil_iff.mpr unnamed, List.append_nil]

/-- `ls -a -l d` on `sampleTree`, without `-R`. -/
def sampleAll : St :=
  (listDir sampleTree false true true 1 false "d" St.init).get (by with_unfolding_all decide)

theorem sampleAll_entries :
    ∃ os, sampleAll.out = St.init.out ++ os ∧ os.filterMap Out.entryName? =
      [".", "..", "f", ".h", "sub", "gone"].filter fun name =>
        (true || !startsWithDot name) && (sampleTree.stat (joinPath "d" name)).isOk :=
  listDir_entries rfl
    (show listDir sampleTree false true true (0 + 1) false "d" St.init = some sampleAll from
      Option.eq_some_of_isSome _)

/-! ## The directories `-R` enters -/

/-- The directories `list_dir` enters under `-R` below a directory, with `-a` set to `listAll`:
each entry other than `.` and `..`, and without `-a` other than a hidden one, that `is_dir` finds
a directory, and the directories below those. -/
inductive Below (sys : Sys) (listAll : Bool) : String → String → Prop
  | child {dir name : String} {names : List String} {endErr : Option Errno} :
      sys.readdir dir = .ok (names, endErr) → name ∈ names →
      (isDotOrDotdot name || (!listAll && startsWithDot name)) = false →
      (isDir sys (joinPath dir name) St.init).1 = true → Below sys listAll dir (joinPath dir name)
  | trans {dir sub path : String} :
      Below sys listAll dir sub → Below sys listAll sub path → Below sys listAll dir path

/-- `o` is no header, or one for a path that satisfies `P`. -/
def HeaderIn (P : String → Prop) (o : Out) : Prop := ∀ path, o = .header path → P path

section Recursion

variable {sys : Sys} {listAll : Bool}

theorem Appends.isDir {P : Out → Prop} (path : String) (s : St) :
    Appends P s (isDir sys path s).2 := by
  unfold Ls.isDir; split <;> exact Appends.refl _ _

/-- The first loop of `list_dir` prints no header. -/
theorem listEntries_noHeader (countOnly listLong : Bool) (dirname : String) (names : List String)
    (P : String → Prop) (s : St) :
    Appends (HeaderIn P) s (listEntries sys countOnly listLong listAll dirname names s) := by
  induction names generalizing s with
  | nil => exact Appends.refl _ s
  | cons name rest ih =>
    refine Appends.trans ?_ (ih _)
    split
    · exact Appends.refl _ s
    · unfold listFile; split
      · exact Appends.print _ (by simp [HeaderIn])
      · split
        · exact Appends.refl _ _
        · split <;> exact ⟨_, rfl, by simp [HeaderIn]⟩

/-- Clearing `errno`, a loop that prints no header outside `P`, and the check of `errno`. -/
theorem pass_headerIn {P : String → Prop} (dirname : String) (endErr : Option Errno) {s t : St}
    (loop : Appends (HeaderIn P) { s with errno := 0 } t) :
    Appends (HeaderIn P) s (checkReadError dirname (readdirEnd endErr t)) := by
  have ended : Appends (HeaderIn P) t (readdirEnd endErr t) := by
    cases endErr <;> exact Appends.refl _ _
  refine (loop.trans ended).trans ?_
  unfold checkReadError; split
  · exact Appends.print _ (by simp [HeaderIn])
  · exact Appends.refl _ _

/-- The second loop prints headers for entries of `dir` it enters, and what their listings print. -/
theorem recurseEntries_headers {dir : String} {names : List String} {endErr : Option Errno}
    (hr : sys.readdir dir = .ok (names, endErr)) {listSub : String → St → Option St}
    (sub : ∀ path s s', listSub path s = some s' → Appends (HeaderIn (Below sys listAll path)) s s')
    {entries : List String} (listed : ∀ name ∈ entries, name ∈ names) {s t : St}
    (run : recurseEntries sys false listAll dir listSub entries s = some t) :
    Appends (HeaderIn (Below sys listAll dir)) s t := by
  induction entries generalizing s with
  | nil => cases run; exact Appends.refl _ _
  | cons name rest ih =>
    have rest_listed : ∀ n ∈ rest, n ∈ names := fun n mem => listed n (.tail name mem)
    have hd : Appends (HeaderIn (Below sys listAll dir)) s (isDir sys (joinPath dir name) s).2 :=
      Appends.isDir _ _
    unfold recurseEntries at run
    split at run
    · exact ih rest_listed run
    · rename_i entered
      split at run
      · rename_i s₁ dir_eq
        have child : Below sys listAll dir (joinPath dir name) :=
          .child hr (listed name (.head rest)) (by simpa using entered)
            (by rw [isDir_fst _ _ _ s, dir_eq])
        rw [dir_eq] at hd
        obtain ⟨s₂, subRun, run⟩ := Option.bind_eq_some.mp run
        simp only [Bool.false_eq_true, if_false] at subRun
        refine hd.trans ((Appends.print s₁ ?_).trans
          (((sub _ _ _ subRun).mono ?_).trans (ih rest_listed run)))
        · simp [HeaderIn, child]
        · exact fun o below path header => .trans child (below path header)
      · rename_i s₁ dir_eq
        rw [dir_eq] at hd
        exact hd.trans (ih rest_listed run)

/-- Under `-R`, every header `list_dir` prints is for a directory below its own. -/
theorem listDir_headers_below {listLong : Bool} {fuel : Nat} {dir : String} {s t : St}
    (run : listDir sys false listLong listAll fuel true dir s = some t) :
    Appends (HeaderIn (Below sys listAll dir)) s t := by
  induction fuel generalizing dir s t with
  | zero => cases run
  | succ fuel ih =>
    unfold listDir at run
    cases hr : sys.readdir dir with
    | error e => rw [hr] at run; cases run; exact Appends.print _ (by simp [HeaderIn])
    | ok r =>
      obtain ⟨names, endErr⟩ := r
      rw [hr] at run
      obtain ⟨s₂, second, rfl⟩ := Option.map_eq_some'.mp run
      exact (pass_headerIn dir endErr (listEntries_noHeader ..)).trans
        (pass_headerIn dir endErr (recurseEntries_headers hr (fun _ _ _ r => ih r) (fun _ => id) second))

/-- One entry of the second loop: the state only grows. -/
theorem recurseEntries_cons {countOnly : Bool} {dir : String} {listSub : String → St → Option St}
    (sub : ∀ path s s', listSub path s = some s' → Grows s s') {name : String}
    {rest : List String} {s t : St}
    (run : recurseEntries sys countOnly listAll dir listSub (name :: rest) s = some t) :
    ∃ s₁, Grows s s₁ ∧ recurseEntries sys countOnly listAll dir listSub rest s₁ = some t := by
  have g := grows sys listAll []
  have hd := g.isDir (joinPath dir name) s
  unfold recurseEntries at run
  split at run
  · exact ⟨s, g.refl s, run⟩
  · split at run
    · rename_i s₁ dir_eq
      rw [dir_eq] at hd
      obtain ⟨s₂, subRun, run⟩ := Option.bind_eq_some.mp run
      refine ⟨s₂, g.trans hd (g.trans ?_ (sub _ _ _ subRun)), run⟩
      split
      · exact g.refl s₁
      · exact g.layout _ _ (by simp)
    · rename_i s₁ dir_eq
      rw [dir_eq] at hd
      exact ⟨s₁, hd, run⟩

/-- The second loop enters each directory among the entries it does not skip, after its header. -/
theorem recurseEntries_enters {dir : String} {listSub : String → St → Option St}
    (sub : ∀ path s s', listSub path s = some s' → Grows s s') {entries : List String} {s t : St}
    (run : recurseEntries sys false listAll dir listSub entries s = some t) {name : String}
    (mem : name ∈ entries) (entered : (isDotOrDotdot name || (!listAll && startsWithDot name)) = false)
    (isdir : (isDir sys (joinPath dir name) St.init).1 = true) :
    ∃ s' t', Reports (.header (joinPath dir name)) s s' ∧ listSub (joinPath dir name) s' = some t' ∧
      Grows t' t := by
  induction entries generalizing s with
  | nil => cases mem
  | cons n rest ih =>
    by_cases hn : n = name
    · subst hn
      have g := grows sys listAll []
      have hd := g.isDir (joinPath dir n) s
      have hb : (isDir sys (joinPath dir n) s).1 = true := by rw [isDir_fst _ _ _ St.init]; exact isdir
      unfold recurseEntries at run
      rw [if_neg (by simp [entered])] at run
      generalize isDir sys (joinPath dir n) s = r at hd hb run
      obtain ⟨_, s₁⟩ := r
      cases hb
      obtain ⟨t', subRun, run⟩ := Option.bind_eq_some.mp run
      simp only [Bool.false_eq_true, if_false] at subRun
      exact ⟨_, t', hd.reports ⟨_, rfl, by simp⟩, subRun, g.recurseEntries sub run⟩
    · obtain ⟨s₁, grown, run⟩ := recurseEntries_cons sub run
      obtain ⟨s', t', rep, subRun, after⟩ := ih run ((List.mem_cons.mp mem).resolve_left (Ne.symm hn))
      exact ⟨s', t', grown.reports rep, subRun, after⟩

/-- Every directory below `dir` is entered by `list_dir` of `dir` under `-R`, after its header. -/
theorem Below.entered {listLong : Bool} {dir path : String} (hb : Below sys listAll dir path) :
    ∀ {fuel : Nat} {s t : St}, listDir sys false listLong listAll fuel true dir s = some t →
      ∃ fuel' s' t', Reports (.header path) s s' ∧
        listDir sys false listLong listAll fuel' true path s' = some t' ∧ Grows t' t := by
  induction hb with
  | @child dir name names endErr hr mem entered isdir =>
    intro fuel s t run
    cases fuel with
    | zero => cases run
    | succ fuel =>
      have g := grows sys listAll []
      unfold listDir at run
      rw [hr] at run
      obtain ⟨t₂, second, rfl⟩ := Option.map_eq_some'.mp run
      obtain ⟨s', t', rep, subRun, after⟩ :=
        recurseEntries_enters (fun _ _ _ r => g.listDir r) second mem entered isdir
      have first := g.pass dir endErr (g.listEntries false listLong dir names { s with errno := 0 })
      exact ⟨fuel, s', t', (g.trans first (g.clearErrno _)).reports rep, subRun,
        g.trans after (g.trans (g.readdirEnd _ _) (g.checkReadError _ _))⟩
  | trans _ _ ih₁ ih₂ =>
    intro fuel s t run
    obtain ⟨fuel₁, s₁, t₁, rep₁, run₁, after₁⟩ := ih₁ run
    obtain ⟨fuel₂, s₂, t₂, rep₂, run₂, after₂⟩ := ih₂ run₁
    exact ⟨fuel₂, s₂, t₂, rep₁.toGrows.reports rep₂, run₂, Appends.trans after₂ after₁⟩

/-- **`-R` enters exactly the directories below.** Under `-R` and without `-n`, `list_dir` prints
a `path:` header for each directory below `dir`, at every depth, and for no other path. -/
theorem listDir_headers {listLong : Bool} {fuel : Nat} {dir : String} {s t : St}
    (run : listDir sys false listLong listAll fuel true dir s = some t) :
    ∃ os, t.out = s.out ++ os ∧ ∀ path, .header path ∈ os ↔ Below sys listAll dir path := by
  obtain ⟨os, ht, sound⟩ := listDir_headers_below run
  refine ⟨os, ht, fun path => ⟨fun mem => sound _ mem path rfl, fun hb => ?_⟩⟩
  obtain ⟨_, s', t', rep, subRun, after⟩ := hb.entered run
  obtain ⟨os', ht', mem⟩ := rep.grows ((grows sys listAll []).trans ((grows sys listAll []).listDir subRun) after)
  rwa [List.append_cancel_left (ht.symm.trans ht')]

end Recursion

/-- `list_dir("d")` under `-R` on `sampleTree`. -/
def sampleTreeListing : St :=
  (listDir sampleTree false false false 2 true "d" St.init).get (by with_unfolding_all decide)

theorem sampleTreeListing_headers :
    ∃ os, sampleTreeListing.out = St.init.out ++ os ∧
      ∀ path, .header path ∈ os ↔ Below sampleTree false "d" path :=
  listDir_headers
    (show listDir sampleTree false false false 2 true "d" St.init = some sampleTreeListing from
      Option.eq_some_of_isSome _)

/-! ## Files before directories -/

section Operands

variable {sys : Sys}

/-- An error line or a layout line: it names no file and is no header. -/
def Out.quiet (o : Out) : Prop := o.entryName? = none ∧ ∀ path, o ≠ .header path

theorem filterMap_quiet {os : List Out} (quiet : ∀ o ∈ os, o.quiet) :
    os.filterMap Out.entryName? = [] :=
  List.filterMap_eq_nil_iff.mpr fun o mem => (quiet o mem).1

theorem Appends.testFile (path : String) (s : St) :
    Appends Out.quiet s (testFile sys path s).2 := by
  unfold Ls.testFile; split
  · exact Appends.refl _ _
  · exact Appends.print _ (by simp [Out.quiet, Out.entryName?])

/-- The search for a directory operand prints only error lines. -/
theorem haveDirOperand_quiet (paths : List String) (s : St) :
    Appends Out.quiet s (haveDirOperand sys paths s).2 := by
  induction paths generalizing s with
  | nil => exact Appends.refl _ s
  | cons path rest ih =>
    have ht := @Appends.testFile sys path s
    unfold haveDirOperand
    generalize Ls.testFile sys path s = r at ht
    rcases r with ⟨_ | _, s₁⟩ <;> dsimp only
    · exact ht.trans (ih _)
    · have hd := @Appends.isDir sys Out.quiet path s₁
      generalize Ls.isDir sys path s₁ = r at hd
      rcases r with ⟨_ | _, s₂⟩ <;> dsimp only
      · exact ht.trans (hd.trans (ih _))
      · exact ht.trans hd

/-- Without `-n`, `list_file` of a path that `stat` finds prints one line, for `name`. -/
theorem listFile_line {path : String} {sb : Stat} (hs : sys.stat path = .ok sb) (name : String)
    (listLong : Bool) (s : St) :
    ∃ o, (listFile sys false path name listLong s).out = s.out ++ [o] ∧ o.entryName? = some name := by
  simp only [listFile, hs, Bool.false_eq_true, if_false]
  split <;> exact ⟨_, rfl, rfl⟩

/-- Without `-n`, the first loop over the operands prints no header, and a line for each operand
that `stat` finds and that is no directory, under its last component, in order. -/
theorem listFileOperands_files (listLong : Bool) (paths : List String) (printed : Bool) (s : St) :
    ∃ os, (listFileOperands sys false listLong paths (printed, s)).2.out = s.out ++ os ∧
      (∀ o ∈ os, ∀ path, o ≠ .header path) ∧
      os.filterMap Out.entryName? = (paths.filter fun path =>
        (sys.stat path).toOption.any fun sb => !isDirMode sb.mode).map lastComponent := by
  induction paths generalizing printed s with
  | nil => exact ⟨[], by simp [listFileOperands], by simp, rfl⟩
  | cons path rest ih =>
    rw [List.filter_cons]
    cases hs : sys.stat path with
    | error e =>
      obtain ⟨os, h, noHeader, names⟩ := ih printed (handleError "cannot access" path (s.fail e))
      refine ⟨.error "cannot access" path e.code :: os, ?_, by simpa using noHeader, ?_⟩
      · simp [listFileOperands, testFile, hs, h]
      · simpa [Out.entryName?, Except.toOption] using names
    | ok sb =>
      have ht : testFile sys path s = (true, s) := by simp [testFile, hs]
      have hd : isDir sys path s = (isDirMode sb.mode, s) := by simp [isDir, hs]
      by_cases dir : isDirMode sb.mode = true
      · obtain ⟨os, h, noHeader, names⟩ := ih printed s
        refine ⟨os, by simpa [listFileOperands, ht, hd, dir] using h, noHeader, ?_⟩
        simpa [Except.toOption, dir] using names
      · obtain ⟨o, line, name⟩ := listFile_line hs (lastComponent path) listLong s
        obtain ⟨os, h, noHeader, names⟩ :=
          ih true (listFile sys false path (lastComponent path) listLong s)
        refine ⟨o :: os, by simp [listFileOperands, ht, hd, dir, h, line], ?_, ?_⟩
        · exact List.forall_mem_cons.mpr
            ⟨fun p hp => by simp [hp, Out.entryName?] at name, noHeader⟩
        · simp [Except.toOption, dir, name, names]

end Operands

/-- **Files first.** Without `-n` and `--help`, with operands, the output of `ls` starts with a
part that holds no header and one line per operand that `stat` finds and that is no directory,
in the order of the command line and under its last component; only then come the directories. -/
theorem ls_files_first {sys : Sys} {fuel : Nat} {opts : List Char} {operands : List String}
    {out : List Out} {code : Nat} (noHelp : '\x07' ∉ opts) (noCount : 'n' ∉ opts)
    (given : operands ≠ []) (run : ls sys fuel opts operands = some (out, code)) :
    ∃ files dirs, out = files ++ dirs ∧ (∀ o ∈ files, ∀ path, o ≠ .header path) ∧
      files.filterMap Out.entryName? = (operands.filter fun path =>
        (sys.stat path).toOption.any fun sb => !isDirMode sb.mode).map lastComponent := by
  obtain ⟨f, os₀, t, hp, printed, listed, rfl, -⟩ := ls_eq_some noHelp run
  have hf : f.countOnly = false := by
    rw [parseOpts_flags hp]
    simp [Flags.init, noCount]
  unfold lsMain at listed
  rw [if_neg given, hf] at listed
  obtain ⟨os₁, h₁, noHeader₁, names₁⟩ :=
    @listFileOperands_files sys f.listLong operands false (St.init.print os₀)
  generalize listFileOperands sys false f.listLong operands (false, St.init.print os₀) = p
    at h₁ listed
  obtain ⟨printedAny, s₁⟩ := p
  dsimp only at listed h₁
  have hq := @haveDirOperand_quiet sys operands s₁
  generalize haveDirOperand sys operands s₁ = q at hq listed
  obtain ⟨haveDir, s₂⟩ := q
  dsimp only at listed hq
  obtain ⟨t', dirs, rfl⟩ := Option.map_eq_some'.mp listed
  simp only [Bool.false_eq_true, if_false]
  have blank : Appends Out.quiet s₂
      (if (!false && printedAny && haveDir) = true then s₂.print [.blank] else s₂) := by
    split
    · exact Appends.print _ (by simp [Out.quiet, Out.entryName?])
    · exact Appends.refl _ _
  obtain ⟨os₂, h₂, quiet₂⟩ := hq.trans blank
  obtain ⟨os₃, h₃, -⟩ := (grows sys f.listAll operands).listDirOperands rfl dirs
  have quiet₀ : ∀ o ∈ os₀, o.quiet := fun o mem => by
    rcases printed o mem with rfl | ⟨c, rfl⟩ <;> simp [Out.quiet, Out.entryName?]
  refine ⟨os₀ ++ os₁ ++ os₂, os₃, by rw [h₃, h₂, h₁]; simp [St.init], ?_, ?_⟩
  · simp only [List.mem_append]
    rintro o ((mem | mem) | mem) path
    exacts [(quiet₀ o mem).2 path, noHeader₁ o mem path, (quiet₂ o mem).2 path]
  · rw [List.filterMap_append, List.filterMap_append, filterMap_quiet quiet₀, names₁,
      filterMap_quiet quiet₂, List.nil_append, List.append_nil]

/-- `ls d d/f` on `sampleTree`: the file `f` first, then the directory. -/
def sampleMixed : List Out × Nat :=
  (ls sampleTree 2 [] ["d", "d/f"]).get (by with_unfolding_all decide)

theorem sampleMixed_files_first :
    '\x07' ∉ ([] : List Char) ∧ 'n' ∉ ([] : List Char) ∧ ["d", "d/f"] ≠ [] ∧
      ∃ files dirs, sampleMixed.1 = files ++ dirs ∧ (∀ o ∈ files, ∀ path, o ≠ .header path) ∧
        files.filterMap Out.entryName? = (["d", "d/f"].filter fun path =>
          (sampleTree.stat path).toOption.any fun sb => !isDirMode sb.mode).map lastComponent :=
  ⟨by decide, by decide, by decide, ls_files_first (by decide) (by decide) (by decide)
    (show ls sampleTree 2 [] ["d", "d/f"] = some sampleMixed from Option.eq_some_of_isSome _)⟩

end Labs.Ls

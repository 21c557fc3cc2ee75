import Labs.Ls.Count

/-!
# `-a` only adds

Without `-a` (`g_list_all`), `list_dir` skips the hidden entries in both of its loops; nothing else
changes. So the run without `-a` lists a part of what the run with it lists, in the same order,
and it comes back whenever that run does: `Keeps a b` says that the listing lines (lines for files,
headers, blank lines) of `b` are a sublist of those of `a`, and each loop of the source carries it
from a state of the run with `-a` to one of the run without it.

* `Keeps.listDir`: `list_dir` at every depth, from the first loop (`Keeps.listEntries`) and the
  recursion (`Keeps.recurseEntries`).
* `Keeps.lsMain`, `ls_all`: `main`, and `ls` on the options without `a`.

Error lines are left out of `Keeps`: with `-a`, a hidden entry whose `stat` fails prints its own
error and leaves its `errno` for the check after `readdir`, which then reports an error reading
the directory that the run without `-a` does not.
-/

namespace Labs.Ls

/-! ## The relation -/

/-- The listing of `b`, its lines for files, headers and blank lines, is a sublist of that of
`a`. -/
def Keeps (a b : St) : Prop := (b.out.filter Out.isListing).Sublist (a.out.filter Out.isListing)

theorem Keeps.step {a a' b b' : St} (h : Keeps a b) {os os' : List Out}
    (ha : a'.out = a.out ++ os) (hb : b'.out = b.out ++ os')
    (sub : (os'.filter Out.isListing).Sublist (os.filter Out.isListing)) : Keeps a' b' := by
  unfold Keeps
  rw [ha, hb, List.filter_append, List.filter_append]
  exact h.append sub

theorem Keeps.grows {a a' b : St} (h : Keeps a b) (g : Grows a a') : Keeps a' b := by
  obtain ⟨os, e, -⟩ := g
  exact h.step e (List.append_nil _).symm (List.nil_sublist _)

/-- Lines outside the listing, on both sides. -/
theorem Keeps.quiet {a a' b b' : St} (h : Keeps a b) {os os' : List Out}
    (ha : a'.out = a.out ++ os) (hb : b'.out = b.out ++ os')
    (quiet : ∀ o ∈ os', o.isListing = false) : Keeps a' b' :=
  h.step ha hb <| by
    rw [List.filter_eq_nil_iff.mpr fun o mem => by simp [quiet o mem]]
    exact List.nil_sublist _

/-- What `list_file` prints does not depend on the state. -/
theorem listFile_out (sys : Sys) (countOnly : Bool) (path name : String) (listLong : Bool) :
    ∃ os, ∀ s, (listFile sys countOnly path name listLong s).out = s.out ++ os := by
  unfold listFile
  cases sys.stat path with
  | error e => exact ⟨[.error "cannot access" path e.code], fun s => rfl⟩
  | ok sb =>
    cases countOnly
    · cases listLong
      · exact ⟨[.short name (isDirMode sb.mode && !isDotOrDotdot name)], fun s => rfl⟩
      · exact ⟨[.long (ftypeToStr sb.mode) (permString sb.mode) sb.nlink (unameForUid sys sb.uid)
          (groupForGid sys sb.gid) sb.size (dateString sys sb.mtime) name
          (isDirMode sb.mode && !isDotOrDotdot name)], fun s => rfl⟩
    · exact ⟨[], fun s => by simp⟩

theorem Keeps.listFile {a b : St} (h : Keeps a b) (sys : Sys) (countOnly : Bool)
    (path name : String) (listLong : Bool) :
    Keeps (listFile sys countOnly path name listLong a)
      (listFile sys countOnly path name listLong b) := by
  obtain ⟨os, e⟩ := listFile_out sys countOnly path name listLong
  exact h.step (e a) (e b) (List.Sublist.refl _)

theorem Keeps.listEntries {a b : St} (h : Keeps a b) (sys : Sys) (countOnly listLong : Bool)
    (dirname : String) (names : List String) :
    Keeps (Ls.listEntries sys countOnly listLong true dirname names a)
      (Ls.listEntries sys countOnly listLong false dirname names b) := by
  induction names generalizing a b with
  | nil => exact h
  | cons name rest ih =>
    simp only [Ls.listEntries, Bool.not_true, Bool.false_and, Bool.not_false, Bool.true_and,
      Bool.false_eq_true, if_false]
    split
    · exact ih (h.grows (Grows.listFile sys countOnly _ name listLong a))
    · exact ih (h.listFile sys countOnly _ name listLong)

theorem checkReadError_quiet (dirname : String) (endErr : Option Errno) (s : St) :
    ∃ os, (checkReadError dirname (readdirEnd endErr s)).out = s.out ++ os ∧
      ∀ o ∈ os, o.isListing = false := by
  have ended : (readdirEnd endErr s).out = s.out := by cases endErr <;> rfl
  unfold checkReadError
  split
  · exact ⟨_, by rw [handleError_out, ended], by simp [Out.isListing]⟩
  · exact ⟨[], by rw [ended, List.append_nil], by simp⟩

theorem Keeps.pass {a b : St} (h : Keeps a b) (dirname : String) (endErr : Option Errno) :
    Keeps (checkReadError dirname (readdirEnd endErr a))
      (checkReadError dirname (readdirEnd endErr b)) := by
  obtain ⟨os, ha, -⟩ := checkReadError_quiet dirname endErr a
  obtain ⟨os', hb, quiet⟩ := checkReadError_quiet dirname endErr b
  exact h.quiet ha hb quiet

theorem Keeps.clearErrno {a b : St} (h : Keeps a b) :
    Keeps { a with errno := 0 } { b with errno := 0 } := h

theorem Keeps.isDir {a b : St} (h : Keeps a b) (sys : Sys) (path : String) :
    Keeps (Ls.isDir sys path a).2 (Ls.isDir sys path b).2 := by
  unfold Ls.isDir; split <;> exact h

/-! ## `list_dir` -/

/-- The second loops with and without `-a`: the one without skips the hidden entries, which the
one with `-a` may enter. -/
theorem Keeps.recurseEntries {sys : Sys} {countOnly : Bool} {dirname : String}
    {listSub listSub' : String → St → Option St}
    (grown : ∀ path a a', listSub path a = some a' → Grows a a')
    (sub : ∀ path a b a', Keeps a b → listSub path a = some a' →
      ∃ b', listSub' path b = some b' ∧ Keeps a' b')
    {names : List String} {a b a' : St} (h : Keeps a b)
    (run : Ls.recurseEntries sys countOnly true dirname listSub names a = some a') :
    ∃ b', Ls.recurseEntries sys countOnly false dirname listSub' names b = some b' ∧
      Keeps a' b' := by
  have g := Ls.grows sys true []
  induction names generalizing a b with
  | nil => cases run; exact ⟨b, rfl, h⟩
  | cons name rest ih =>
    unfold Ls.recurseEntries at run ⊢
    simp only [Bool.not_true, Bool.false_and, Bool.or_false, Bool.not_false, Bool.true_and] at run ⊢
    by_cases dot : isDotOrDotdot name = true
    · rw [if_pos dot] at run
      rw [if_pos (by simp [dot])]
      exact ih h run
    rw [if_neg dot] at run
    have hd := g.isDir (joinPath dirname name) a
    have same := isDir_fst sys (joinPath dirname name) a b
    have kept := h.isDir sys (joinPath dirname name)
    generalize Ls.isDir sys (joinPath dirname name) a = ra at run hd same kept
    obtain ⟨isA, a₁⟩ := ra
    by_cases hidden : startsWithDot name = true
    · rw [if_pos (by simp [hidden])]
      cases isA <;> dsimp only at run
      · exact ih (h.grows hd) run
      · obtain ⟨a₂, subRun, run⟩ := Option.bind_eq_some.mp run
        have printed : Grows a₁
            (if countOnly = true then a₁ else a₁.print [.blank, .header (joinPath dirname name)]) := by
          split
          · exact g.refl _
          · exact g.layout _ _ (by simp)
        exact ih (h.grows ((hd.trans printed).trans (grown _ _ _ subRun))) run
    · rw [if_neg (by simp [dot, hidden])]
      generalize Ls.isDir sys (joinPath dirname name) b = rb at same kept ⊢
      obtain ⟨isB, b₁⟩ := rb
      dsimp only at same kept
      subst same
      cases isA <;> dsimp only at run ⊢
      · exact ih kept run
      · obtain ⟨a₂, subRun, run⟩ := Option.bind_eq_some.mp run
        have printed : Keeps
            (if countOnly = true then a₁ else a₁.print [.blank, .header (joinPath dirname name)])
            (if countOnly = true then b₁ else b₁.print [.blank, .header (joinPath dirname name)]) := by
          split
          · exact kept
          · exact kept.step rfl rfl (List.Sublist.refl _)
        obtain ⟨b₂, subRun', kept₂⟩ := sub _ _ _ _ printed subRun
        obtain ⟨b', run', kept'⟩ := ih kept₂ run
        exact ⟨b', by rw [subRun', Option.some_bind]; exact run', kept'⟩

/-- **`list_dir` without `-a`** comes back whenever it does with `-a`, and lists a sublist of
what it lists with it, at every depth. -/
theorem Keeps.listDir {sys : Sys} {countOnly listLong : Bool} {fuel : Nat} {recursive : Bool}
    {dir : String} {a b a' : St} (h : Keeps a b)
    (run : Ls.listDir sys countOnly listLong true fuel recursive dir a = some a') :
    ∃ b', Ls.listDir sys countOnly listLong false fuel recursive dir b = some b' ∧ Keeps a' b' := by
  induction fuel generalizing recursive dir a b a' with
  | zero => cases run
  | succ fuel ih =>
    unfold Ls.listDir at run ⊢
    generalize sys.readdir dir = r at run ⊢
    rcases r with e | ⟨names, endErr⟩
    · cases run
      exact ⟨_, rfl, h.quiet (handleError_out _ _ _) (handleError_out _ _ _)
        (by simp [Out.isListing])⟩
    · dsimp only at run ⊢
      have first := (h.clearErrno.listEntries sys countOnly listLong dir names).pass dir endErr
      split at run
      · rw [if_pos ‹_›]
        obtain ⟨a₂, second, rfl⟩ := Option.map_eq_some'.mp run
        have grown : ∀ path a a', Ls.listDir sys countOnly listLong true fuel true path a = some a' →
            Grows a a' := fun _ _ _ r => (Ls.grows sys true []).listDir r
        have sub : ∀ path a b a', Keeps a b →
            Ls.listDir sys countOnly listLong true fuel true path a = some a' →
            ∃ b', Ls.listDir sys countOnly listLong false fuel true path b = some b' ∧ Keeps a' b' :=
          fun _ _ _ _ k r => ih k r
        obtain ⟨b₂, second', kept⟩ := Keeps.recurseEntries grown sub first.clearErrno second
        exact ⟨_, by rw [second']; rfl, kept.pass dir endErr⟩
      · rw [if_neg ‹_›]
        cases run
        exact ⟨_, rfl, first⟩

/-! ## The loops of `main` -/

theorem Keeps.testFile {a b : St} (h : Keeps a b) (sys : Sys) (path : String) :
    (Ls.testFile sys path a).1 = (Ls.testFile sys path b).1 ∧
      Keeps (Ls.testFile sys path a).2 (Ls.testFile sys path b).2 := by
  unfold Ls.testFile
  split
  · exact ⟨rfl, h⟩
  · exact ⟨rfl, h.quiet (handleError_out _ _ _) (handleError_out _ _ _) (by simp [Out.isListing])⟩

theorem Keeps.listFileOperands {a b : St} (h : Keeps a b) (sys : Sys) (countOnly listLong : Bool)
    (paths : List String) (printed : Bool) :
    (Ls.listFileOperands sys countOnly listLong paths (printed, a)).1 =
        (Ls.listFileOperands sys countOnly listLong paths (printed, b)).1 ∧
      Keeps (Ls.listFileOperands sys countOnly listLong paths (printed, a)).2
        (Ls.listFileOperands sys countOnly listLong paths (printed, b)).2 := by
  induction paths generalizing printed a b with
  | nil => exact ⟨rfl, h⟩
  | cons path rest ih =>
    obtain ⟨same, kept⟩ := h.testFile sys path
    simp only [Ls.listFileOperands]
    generalize Ls.testFile sys path a = ra at same kept ⊢
    generalize Ls.testFile sys path b = rb at same kept ⊢
    obtain ⟨ok, a₁⟩ := ra
    obtain ⟨ok', b₁⟩ := rb
    dsimp only at same kept ⊢
    subst same
    cases ok <;> dsimp only
    · exact ih kept _
    · have same := isDir_fst sys path a₁ b₁
      have kept := kept.isDir sys path
      generalize Ls.isDir sys path a₁ = ra at same kept ⊢
      generalize Ls.isDir sys path b₁ = rb at same kept ⊢
      obtain ⟨dir, a₂⟩ := ra
      obtain ⟨dir', b₂⟩ := rb
      dsimp only at same kept ⊢
      subst same
      cases dir <;> dsimp only
      · exact ih (kept.listFile sys countOnly path _ listLong) _
      · exact ih kept _

theorem Keeps.haveDirOperand {a b : St} (h : Keeps a b) (sys : Sys) (paths : List String) :
    (Ls.haveDirOperand sys paths a).1 = (Ls.haveDirOperand sys paths b).1 ∧
      Keeps (Ls.haveDirOperand sys paths a).2 (Ls.haveDirOperand sys paths b).2 := by
  induction paths generalizing a b with
  | nil => exact ⟨rfl, h⟩
  | cons path rest ih =>
    obtain ⟨same, kept⟩ := h.testFile sys path
    simp only [Ls.haveDirOperand]
    generalize Ls.testFile sys path a = ra at same kept ⊢
    generalize Ls.testFile sys path b = rb at same kept ⊢
    obtain ⟨ok, a₁⟩ := ra
    obtain ⟨ok', b₁⟩ := rb
    dsimp only at same kept ⊢
    subst same
    cases ok <;> dsimp only
    · exact ih kept
    · have same := isDir_fst sys path a₁ b₁
      have kept := kept.isDir sys path
      generalize Ls.isDir sys path a₁ = ra at same kept ⊢
      generalize Ls.isDir sys path b₁ = rb at same kept ⊢
      obtain ⟨dir, a₂⟩ := ra
      obtain ⟨dir', b₂⟩ := rb
      dsimp only at same kept ⊢
      subst same
      cases dir <;> dsimp only
      · exact ih kept
      · exact ⟨rfl, kept⟩

/-- The third loop of `main`: the same headers and blank lines, and `list_dir` without `-a`. -/
theorem Keeps.listDirOperands {sys : Sys} {f : Flags} (all : f.listAll = true) {fuel : Nat}
    {multiple printedAnyFile : Bool} {paths : List String} {firstDir : Bool} {a b a' : St}
    (h : Keeps a b)
    (run : Ls.listDirOperands sys f fuel multiple printedAnyFile paths (firstDir, a) = some a') :
    ∃ b', Ls.listDirOperands sys { f with listAll := false } fuel multiple printedAnyFile paths
      (firstDir, b) = some b' ∧ Keeps a' b' := by
  induction paths generalizing firstDir a b with
  | nil => cases run; exact ⟨b, rfl, h⟩
  | cons path rest ih =>
    obtain ⟨same, kept⟩ := h.testFile sys path
    simp only [Ls.listDirOperands] at run ⊢
    generalize Ls.testFile sys path a = ra at same kept run
    generalize Ls.testFile sys path b = rb at same kept ⊢
    obtain ⟨ok, a₁⟩ := ra
    obtain ⟨ok', b₁⟩ := rb
    dsimp only at same kept
    subst same
    cases ok <;> dsimp only at run ⊢
    · exact ih kept run
    · have same := isDir_fst sys path a₁ b₁
      have kept := kept.isDir sys path
      generalize Ls.isDir sys path a₁ = ra at same kept run
      generalize Ls.isDir sys path b₁ = rb at same kept ⊢
      obtain ⟨dir, a₂⟩ := ra
      obtain ⟨dir', b₂⟩ := rb
      dsimp only at same kept
      subst same
      cases dir <;> dsimp only at run ⊢
      · exact ih kept run
      · rw [all] at run
        split at run <;> rename_i header
        · rw [if_pos header]
          generalize ((if (firstDir || printedAnyFile) = true then [Out.blank] else []) ++
            [Out.header path]) = os at run ⊢
          have printed : Keeps (a₂.print os) (b₂.print os) := kept.step rfl rfl (.refl _)
          obtain ⟨a₃, listed, run⟩ := Option.bind_eq_some.mp run
          obtain ⟨b₃, listed', kept₃⟩ := printed.listDir listed
          obtain ⟨b', run', kept'⟩ := ih kept₃ run
          exact ⟨b', by rw [listed', Option.some_bind]; exact run', kept'⟩
        · rw [if_neg header]
          obtain ⟨a₃, listed, run⟩ := Option.bind_eq_some.mp run
          obtain ⟨b₃, listed', kept₃⟩ := kept.listDir listed
          obtain ⟨b', run', kept'⟩ := ih kept₃ run
          exact ⟨b', by rw [listed', Option.some_bind]; exact run', kept'⟩

/-- `main` without `-a` comes back whenever it does with `-a`: the same operands listed as files,
the same blank line, and each directory operand listed without `-a`. -/
theorem Keeps.lsMain {sys : Sys} {fuel : Nat} {f : Flags} (all : f.listAll = true)
    {operands : List String} {a b a' : St} (h : Keeps a b)
    (run : Ls.lsMain sys fuel f operands a = some a') :
    ∃ b', Ls.lsMain sys fuel { f with listAll := false } operands b = some b' ∧ Keeps a' b' := by
  have count (t t' : St) (kept : Keeps t t') :
      Keeps (t.print [.count t.count]) (t'.print [.count t'.count]) :=
    kept.quiet rfl rfl (by simp [Out.isListing])
  unfold Ls.lsMain at run ⊢
  dsimp only at run ⊢
  split at run
  · rw [all] at run
    split at run
    · obtain ⟨a₁, listed, rfl⟩ := Option.map_eq_some'.mp run
      obtain ⟨b₁, listed', kept⟩ := h.listDir listed
      exact ⟨_, by rw [if_pos ‹_›, if_pos ‹_›, listed']; rfl, count _ _ kept⟩
    · rw [if_pos ‹_›, if_neg ‹_›]
      exact h.listDir run
  · rw [if_neg ‹_›]
    obtain ⟨same₁, kept₁⟩ := h.listFileOperands sys f.countOnly f.listLong operands false
    generalize Ls.listFileOperands sys f.countOnly f.listLong operands (false, a) = r at same₁ kept₁ run
    generalize Ls.listFileOperands sys f.countOnly f.listLong operands (false, b) = r' at same₁ kept₁ ⊢
    obtain ⟨printed, a₁⟩ := r
    obtain ⟨printed', b₁⟩ := r'
    dsimp only at same₁ kept₁ run ⊢
    subst same₁
    obtain ⟨same₂, kept₂⟩ := kept₁.haveDirOperand sys operands
    generalize Ls.haveDirOperand sys operands a₁ = r at same₂ kept₂ run
    generalize Ls.haveDirOperand sys operands b₁ = r' at same₂ kept₂ ⊢
    obtain ⟨haveDir, a₂⟩ := r
    obtain ⟨haveDir', b₂⟩ := r'
    dsimp only at same₂ kept₂ run ⊢
    subst same₂
    have blank : Keeps (if (!f.countOnly && printed && haveDir) = true then a₂.print [.blank] else a₂)
        (if (!f.countOnly && printed && haveDir) = true then b₂.print [.blank] else b₂) := by
      split
      · exact kept₂.step rfl rfl (.refl _)
      · exact kept₂
    generalize (if (!f.countOnly && printed && haveDir) = true then a₂.print [.blank] else a₂) = a₃
      at blank run
    generalize (if (!f.countOnly && printed && haveDir) = true then b₂.print [.blank] else b₂) = b₃
      at blank ⊢
    obtain ⟨a₄, listed, rfl⟩ := Option.map_eq_some'.mp run
    obtain ⟨b₄, listed', kept⟩ := blank.listDirOperands all listed
    refine ⟨_, by rw [listed']; rfl, ?_⟩
    split
    · exact count _ _ kept
    · exact kept

/-- **`-a` only adds.** Whenever `ls` comes back, it comes back on the same options without `a`
and the same operands, and what it lists then (its lines for files, headers and blank lines) is a
sublist of what it lists with `-a`. -/
theorem ls_all {sys : Sys} {fuel : Nat} {opts : List Char} {operands : List String}
    {out : List Out} {code : Nat} (run : ls sys fuel opts operands = some (out, code)) :
    ∃ out' code', ls sys fuel (opts.filter (· != 'a')) operands = some (out', code') ∧
      (out'.filter Out.isListing).Sublist (out.filter Out.isListing) := by
  by_cases all : 'a' ∈ opts
  swap
  · rw [List.filter_eq_self.mpr fun c mem => by simpa using ne_of_mem_of_not_mem mem all]
    exact ⟨out, code, run, .refl _⟩
  unfold ls at run ⊢
  rcases parseOpts_filter_cases (c := 'a') (by simp) opts with ⟨s, e, e'⟩ | ⟨g, g', s, e, e'⟩
  · rw [e] at run
    rw [e']
    exact ⟨out, code, run, .refl _⟩
  · have flags : g' = { g with listAll := false } := by
      rw [parseOpts_flags e, parseOpts_flags e']
      simp [List.mem_filter, Flags.init]
    have allFlag : g.listAll = true := by rw [parseOpts_flags e]; simp [Flags.init, all]
    rw [e] at run
    obtain ⟨t, listed, eq⟩ := Option.map_eq_some'.mp run
    obtain ⟨t', listed', kept⟩ := Keeps.lsMain allFlag (List.Sublist.refl _ : Keeps s s) listed
    cases eq
    exact ⟨t'.out, t'.errCode, by rw [e', flags]; exact congrArg (Option.map _) listed', kept⟩

/-- `ls -a -R d` on `sampleTree`. -/
def sampleAllRecursive : List Out × Nat :=
  (ls sampleTree 2 ['a', 'R'] ["d"]).get (by with_unfolding_all decide)

theorem sampleAllRecursive_only_adds :
    ∃ out' code', ls sampleTree 2 (['a', 'R'].filter (· != 'a')) ["d"] = some (out', code') ∧
      (out'.filter Out.isListing).Sublist (sampleAllRecursive.1.filter Out.isListing) :=
  ls_all (show ls sampleTree 2 ['a', 'R'] ["d"] = some sampleAllRecursive from
    Option.eq_some_of_isSome _)

end Labs.Ls

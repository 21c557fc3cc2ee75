import Labs.Ls.ExitStatus

/-!
# Runs of `ls` that differ in `-n` or `-l`

`-n` (`g_count_only`) and `-l` (`list_long`) change what `list_file` prints for a file and which
lookups it makes, and `-n` hides the headers and the blank lines; neither changes which paths
`main.c` visits, in which order, or what `stat` and `readdir` find there. So two such runs go
in lockstep: a relation between their states that each change of state keeps (`Lockstep`) is
kept by every loop, by `list_dir` at every depth, and by `main`, and the two runs run out of
fuel together (`Option.Rel`). The induction over the recursion and the loops is done here once,
for every such relation.

* `Lockstep.listDir`, `Lockstep.listFileOperands`, `Lockstep.haveDirOperand`,
  `Lockstep.listDirOperands`, `Lockstep.lsMain`: the lifting.
* `Shortens`, `ls_long`: `ls` without `-l` prints the lines of `ls -l`, each line for a file
  shortened to its name, apart from the reports of an error reading a directory, which the
  lookups of `-l` can add or take away.
-/

namespace Option.Rel

variable {α β γ δ : Type} {r : α → β → Prop} {q : γ → δ → Prop} {x : Option α} {y : Option β}

theorem bind (h : Option.Rel r x y) {f : α → Option γ} {g : β → Option δ}
    (hf : ∀ {a b}, r a b → Option.Rel q (f a) (g b)) : Option.Rel q (x.bind f) (y.bind g) := by
  cases h with
  | none => exact .none
  | some hr => exact hf hr

theorem map (h : Option.Rel r x y) {f : α → γ} {g : β → δ} (hf : ∀ {a b}, r a b → q (f a) (g b)) :
    Option.Rel q (x.map f) (y.map g) := by
  cases h with
  | none => exact .none
  | some hr => exact .some (hf hr)

theorem mono (h : Option.Rel r x y) {r' : α → β → Prop} (hr : ∀ {a b}, r a b → r' a b) :
    Option.Rel r' x y := by
  cases h with
  | none => exact .none
  | some h => exact .some (hr h)

/-- Related options have the same image under maps that agree on related values. -/
theorem map_eq (h : Option.Rel r x y) {f : α → γ} {g : β → γ} (hf : ∀ {a b}, r a b → g b = f a) :
    y.map g = x.map f := by
  cases h with
  | none => rfl
  | some h => rw [Option.map_some', Option.map_some', hf h]

/-- A relation that is a map relates an option to its image. -/
theorem eq_map {V : α → β} (h : Option.Rel (fun a b => b = V a) x y) : y = x.map V := by
  simpa using h.map_eq (g := id) fun e => e

end Option.Rel

namespace Labs.Ls

/-- A relation between the states of two runs on one system, with `g_count_only` and `list_long`
set to `countOnly` and `listLong` in the first and to `countOnly'` and `listLong'` in the second,
that every change of state keeps: a failing call, clearing `errno`, a failing call that
`handle_error` reports, the check of `errno` after a loop of `list_dir`, `list_file`, and the
headers and blank lines, which `-n` does not print. -/
structure Lockstep (sys : Sys) (countOnly listLong countOnly' listLong' : Bool)
    (R : St → St → Prop) : Prop where
  fail : ∀ {a b} (e : Errno), R a b → R (a.fail e) (b.fail e)
  clearErrno : ∀ {a b}, R a b → R { a with errno := 0 } { b with errno := 0 }
  report : ∀ {a b} (what path : String) (e : Errno), R a b →
    R (handleError what path (a.fail e)) (handleError what path (b.fail e))
  checkReadError : ∀ {a b} (dirname : String), R a b →
    R (checkReadError dirname a) (checkReadError dirname b)
  listFile : ∀ {a b} (path name : String), R a b →
    R (listFile sys countOnly path name listLong a) (listFile sys countOnly' path name listLong' b)
  layout : ∀ {a b} (os : List Out), (∀ o ∈ os, o = .blank ∨ ∃ path, o = .header path) → R a b →
    R (if countOnly then a else a.print os) (if countOnly' then b else b.print os)

/-- `R` after the count `main` prints at the end under `-n`. -/
def Counted (countOnly countOnly' : Bool) (R : St → St → Prop) (a b : St) : Prop :=
  ∃ a₀ b₀, R a₀ b₀ ∧ a = (if countOnly then a₀.print [.count a₀.count] else a₀) ∧
    b = (if countOnly' then b₀.print [.count b₀.count] else b₀)

namespace Lockstep

variable {sys : Sys} {countOnly listLong countOnly' listLong' : Bool} {R : St → St → Prop}
  {a b : St}

/-- `test_file` answers the same in both runs, and keeps the relation. -/
theorem testFile (h : Lockstep sys countOnly listLong countOnly' listLong' R) (path : String)
    (hr : R a b) :
    ∃ ok a₁ b₁, Ls.testFile sys path a = (ok, a₁) ∧ Ls.testFile sys path b = (ok, b₁) ∧ R a₁ b₁ := by
  unfold Ls.testFile
  cases sys.stat path with
  | ok _ => exact ⟨_, _, _, rfl, rfl, hr⟩
  | error e => exact ⟨_, _, _, rfl, rfl, h.report _ _ e hr⟩

/-- `is_dir` answers the same in both runs, and keeps the relation. -/
theorem isDir (h : Lockstep sys countOnly listLong countOnly' listLong' R) (path : String)
    (hr : R a b) :
    ∃ dir a₁ b₁, Ls.isDir sys path a = (dir, a₁) ∧ Ls.isDir sys path b = (dir, b₁) ∧ R a₁ b₁ := by
  unfold Ls.isDir
  cases sys.stat path with
  | ok _ => exact ⟨_, _, _, rfl, rfl, hr⟩
  | error e => exact ⟨_, _, _, rfl, rfl, h.fail e hr⟩

theorem listEntries (h : Lockstep sys countOnly listLong countOnly' listLong' R) (listAll : Bool)
    (dirname : String) (names : List String) (hr : R a b) :
    R (Ls.listEntries sys countOnly listLong listAll dirname names a)
      (Ls.listEntries sys countOnly' listLong' listAll dirname names b) := by
  induction names generalizing a b with
  | nil => exact hr
  | cons name rest ih =>
    simp only [Ls.listEntries]
    by_cases hidden : (!listAll && startsWithDot name) = true
    · rw [if_pos hidden, if_pos hidden]
      exact ih hr
    · rw [if_neg hidden, if_neg hidden]
      exact ih (h.listFile _ _ hr)

/-- One check of `list_dir`: the final `NULL` of `readdir`, and the test of `errno`. -/
theorem pass (h : Lockstep sys countOnly listLong countOnly' listLong' R) (dirname : String)
    (endErr : Option Errno) (hr : R a b) :
    R (Ls.checkReadError dirname (Ls.readdirEnd endErr a))
      (Ls.checkReadError dirname (Ls.readdirEnd endErr b)) := by
  refine h.checkReadError dirname ?_
  cases endErr
  · exact hr
  · exact h.fail _ hr

theorem recurseEntries (h : Lockstep sys countOnly listLong countOnly' listLong' R)
    {listAll : Bool} {dirname : String} {listSub listSub' : String → St → Option St}
    (sub : ∀ path {a b}, R a b → Option.Rel R (listSub path a) (listSub' path b))
    (names : List String) (hr : R a b) :
    Option.Rel R (Ls.recurseEntries sys countOnly listAll dirname listSub names a)
      (Ls.recurseEntries sys countOnly' listAll dirname listSub' names b) := by
  induction names generalizing a b with
  | nil => exact .some hr
  | cons name rest ih =>
    unfold Ls.recurseEntries
    by_cases skip : (isDotOrDotdot name || (!listAll && startsWithDot name)) = true
    · rw [if_pos skip, if_pos skip]
      exact ih hr
    rw [if_neg skip, if_neg skip]
    obtain ⟨dir, a₁, b₁, ea, eb, kept⟩ := h.isDir (joinPath dirname name) hr
    rw [ea, eb]
    cases dir
    · exact ih kept
    · exact (sub _ (h.layout _ (by simp) kept)).bind ih

/-- **`list_dir`** keeps the relation, at every depth of the recursion, and the two calls run
out of fuel together. -/
theorem listDir (h : Lockstep sys countOnly listLong countOnly' listLong' R) (listAll : Bool)
    (fuel : Nat) (recursive : Bool) (dirname : String) (hr : R a b) :
    Option.Rel R (Ls.listDir sys countOnly listLong listAll fuel recursive dirname a)
      (Ls.listDir sys countOnly' listLong' listAll fuel recursive dirname b) := by
  induction fuel generalizing recursive dirname a b with
  | zero => exact .none
  | succ fuel ih =>
    simp only [Ls.listDir]
    cases sys.readdir dirname with
    | error e => exact .some (h.report _ _ e hr)
    | ok r =>
      obtain ⟨names, endErr⟩ := r
      have first := h.pass dirname endErr (h.listEntries listAll dirname names (h.clearErrno hr))
      dsimp only
      split
      · exact (h.recurseEntries (fun path _ _ => ih true path) names (h.clearErrno first)).map
          (h.pass dirname endErr)
      · exact .some first

theorem listFileOperands (h : Lockstep sys countOnly listLong countOnly' listLong' R)
    (operands : List String) (printed : Bool) (hr : R a b) :
    (Ls.listFileOperands sys countOnly listLong operands (printed, a)).1 =
        (Ls.listFileOperands sys countOnly' listLong' operands (printed, b)).1 ∧
      R (Ls.listFileOperands sys countOnly listLong operands (printed, a)).2
        (Ls.listFileOperands sys countOnly' listLong' operands (printed, b)).2 := by
  induction operands generalizing printed a b with
  | nil => exact ⟨rfl, hr⟩
  | cons path rest ih =>
    obtain ⟨ok, a₁, b₁, ea, eb, kept⟩ := h.testFile path hr
    simp only [Ls.listFileOperands, ea, eb]
    cases ok <;> dsimp only
    · exact ih _ kept
    · obtain ⟨dir, a₂, b₂, ea, eb, kept⟩ := h.isDir path kept
      rw [ea, eb]
      cases dir <;> dsimp only
      · exact ih _ (h.listFile _ _ kept)
      · exact ih _ kept

theorem haveDirOperand (h : Lockstep sys countOnly listLong countOnly' listLong' R)
    (operands : List String) (hr : R a b) :
    (Ls.haveDirOperand sys operands a).1 = (Ls.haveDirOperand sys operands b).1 ∧
      R (Ls.haveDirOperand sys operands a).2 (Ls.haveDirOperand sys operands b).2 := by
  induction operands generalizing a b with
  | nil => exact ⟨rfl, hr⟩
  | cons path rest ih =>
    obtain ⟨ok, a₁, b₁, ea, eb, kept⟩ := h.testFile path hr
    simp only [Ls.haveDirOperand, ea, eb]
    cases ok <;> dsimp only
    · exact ih kept
    · obtain ⟨dir, a₂, b₂, ea, eb, kept⟩ := h.isDir path kept
      rw [ea, eb]
      cases dir <;> dsimp only
      · exact ih kept
      · exact ⟨rfl, kept⟩

/-- The header of a directory operand: a blank line before it unless it is the first and no file
was listed. Where one run does not print it, the other may print it with either. -/
theorem header (h : Lockstep sys countOnly listLong countOnly' listLong' R)
    (multiple recursive : Bool) {printedAnyFile firstDir firstDir' : Bool} (path : String)
    (same : countOnly = true ∨ countOnly' = true ∨ firstDir' = firstDir) (hr : R a b) :
    ∃ fd fd' a₁ b₁,
      (if (!countOnly && (multiple || recursive)) = true then
        (true, a.print ((if (firstDir || printedAnyFile) = true then [.blank] else []) ++
          [.header path]))
        else (firstDir, a)) = (fd, a₁) ∧
      (if (!countOnly' && (multiple || recursive)) = true then
        (true, b.print ((if (firstDir' || printedAnyFile) = true then [.blank] else []) ++
          [.header path]))
        else (firstDir', b)) = (fd', b₁) ∧
      R a₁ b₁ ∧ (countOnly = true ∨ countOnly' = true ∨ fd' = fd) := by
  have layout (first : Bool) :=
    h.layout ((if first = true then [.blank] else []) ++ [.header path]) (by split <;> simp) hr
  cases multiple || recursive
  · exact ⟨firstDir, firstDir', a, b, by simp, by simp, hr, same⟩
  cases countOnly <;> cases countOnly'
  · obtain rfl := (same.resolve_left Bool.false_ne_true).resolve_left Bool.false_ne_true
    exact ⟨true, true, _, _, rfl, rfl, by simpa using layout (firstDir' || printedAnyFile),
      .inr (.inr rfl)⟩
  · exact ⟨true, firstDir', _, b, rfl, rfl, by simpa using layout (firstDir || printedAnyFile),
      .inr (.inl rfl)⟩
  · exact ⟨firstDir, true, a, _, rfl, rfl, by simpa using layout (firstDir' || printedAnyFile),
      .inl rfl⟩
  · exact ⟨firstDir, firstDir', a, b, rfl, rfl, hr, .inl rfl⟩

/-- The third loop of `main`, for flags that differ only in `-n` and `-l`. Whether a header needs
a blank line before it does not matter where `-n` hides it. -/
theorem listDirOperands (h : Lockstep sys countOnly listLong countOnly' listLong' R) {f : Flags}
    (hc : f.countOnly = countOnly) (hl : f.listLong = listLong) (fuel : Nat)
    (multiple printedAnyFile : Bool) (operands : List String) {firstDir firstDir' : Bool}
    (same : countOnly = true ∨ countOnly' = true ∨ firstDir' = firstDir) (hr : R a b) :
    Option.Rel R (Ls.listDirOperands sys f fuel multiple printedAnyFile operands (firstDir, a))
      (Ls.listDirOperands sys { f with countOnly := countOnly', listLong := listLong' } fuel
        multiple printedAnyFile operands (firstDir', b)) := by
  induction operands generalizing firstDir firstDir' a b with
  | nil => exact .some hr
  | cons path rest ih =>
    obtain ⟨ok, a₁, b₁, ea, eb, kept⟩ := h.testFile path hr
    simp only [Ls.listDirOperands, ea, eb]
    cases ok <;> dsimp only
    · exact ih same kept
    · obtain ⟨dir, a₂, b₂, ea, eb, kept⟩ := h.isDir path kept
      rw [ea, eb]
      cases dir <;> dsimp only
      · exact ih same kept
      · rw [hc, hl]
        obtain ⟨fd, fd', a₃, b₃, e, e', kept, same'⟩ :=
          h.header multiple f.recursive path same kept
        rw [e, e']
        exact (h.listDir f.listAll fuel f.recursive path kept).bind (ih same')

/-- **`main`** keeps the relation up to the count it prints under `-n`, given the relation for
the flags of `list_dir(".")` too, which under `-n` has `list_long` off. -/
theorem lsMain (h : Lockstep sys countOnly listLong countOnly' listLong' R)
    (dot : Lockstep sys countOnly (!countOnly && listLong) countOnly' (!countOnly' && listLong') R)
    {f : Flags} (hc : f.countOnly = countOnly) (hl : f.listLong = listLong) (fuel : Nat)
    (operands : List String) (hr : R a b) :
    Option.Rel (Counted countOnly countOnly' R) (Ls.lsMain sys fuel f operands a)
      (Ls.lsMain sys fuel { f with countOnly := countOnly', listLong := listLong' } operands b) := by
  have counted : ∀ {a b}, R a b → Counted countOnly countOnly' R
      (if countOnly = true then a.print [.count a.count] else a)
      (if countOnly' = true then b.print [.count b.count] else b) := fun hr => ⟨_, _, hr, rfl, rfl⟩
  unfold Ls.lsMain
  obtain ⟨l, all, rec, c⟩ := f
  dsimp only at hc hl ⊢
  subst hc hl
  split
  · have run := dot.listDir all fuel rec "." hr
    cases c <;> cases countOnly' <;> simpa using run.map counted
  · obtain ⟨same₁, kept₁⟩ := h.listFileOperands operands false hr
    generalize Ls.listFileOperands sys c l operands (false, a) = ra at same₁ kept₁ ⊢
    generalize Ls.listFileOperands sys countOnly' listLong' operands (false, b) = rb
      at same₁ kept₁ ⊢
    obtain ⟨printed, a₁⟩ := ra
    obtain ⟨printed', b₁⟩ := rb
    dsimp only at same₁ kept₁ ⊢
    subst same₁
    obtain ⟨same₂, kept₂⟩ := h.haveDirOperand operands kept₁
    generalize Ls.haveDirOperand sys operands a₁ = ra at same₂ kept₂ ⊢
    generalize Ls.haveDirOperand sys operands b₁ = rb at same₂ kept₂ ⊢
    obtain ⟨haveDir, a₂⟩ := ra
    obtain ⟨haveDir', b₂⟩ := rb
    dsimp only at same₂ kept₂ ⊢
    subst same₂
    have blank : R (if (!c && printed && haveDir) = true then a₂.print [.blank] else a₂)
        (if (!countOnly' && printed && haveDir) = true then b₂.print [.blank] else b₂) := by
      have := h.layout (if (printed && haveDir) = true then [.blank] else []) (by split <;> simp)
        kept₂
      cases c <;> cases countOnly' <;> cases printed <;> cases haveDir <;> simpa using this
    exact (h.listDirOperands (f := ⟨l, all, rec, c⟩) rfl rfl fuel _ printed operands
      (.inr (.inr rfl)) blank).map counted

end Lockstep

/-! ## `-l` -/

/-- The line `ls` without `-l` prints where `ls -l` prints `o`: the name of a long line, and its
`/`; every other line as it is. -/
def Out.shorten : Out → Out
  | .long _ _ _ _ _ _ _ name slash => .short name slash
  | o => o

/-- A report of an error reading a directory. -/
def Out.isReadError : Out → Bool
  | .error what _ _ => what == "error reading directory"
  | _ => false

/-- What is left of a run's lines once the reports of an error reading a directory are taken out. -/
def notReadErrors (out : List Out) : List Out := out.filter fun o => !o.isReadError

@[simp] theorem notReadErrors_append (out out' : List Out) :
    notReadErrors (out ++ out') = notReadErrors out ++ notReadErrors out' := List.filter_append ..

/-- Lines that are no lines for files are seen as they are. -/
theorem Out.map_shorten_eq {os : List Out} (h : ∀ o ∈ os, o.shorten = o) : os.map Out.shorten = os := by
  rw [List.map_congr_left h, List.map_id']

/-- The state `b` of the run without `-l`, and the state `a` of the run with it: the same count,
and the same lines, each long line shortened, apart from the reports of an error reading a
directory. `errno` is not related: the lookups of `-l` write it. -/
def Shortens (a b : St) : Prop :=
  b.count = a.count ∧ notReadErrors b.out = notReadErrors (a.out.map Out.shorten)

/-- Lines printed on both sides, a long line on one where the other prints it shortened. -/
theorem Shortens.print {a b : St} (h : Shortens a b) {os os' : List Out}
    (same : os' = os.map Out.shorten) : Shortens (a.print os) (b.print os') := by
  refine ⟨h.1, ?_⟩
  simp only [St.print_out, List.map_append, notReadErrors_append, h.2, same]

theorem Shortens.checkReadError {a b : St} (h : Shortens a b) (dirname : String) :
    Shortens (Ls.checkReadError dirname a) (Ls.checkReadError dirname b) := by
  have hidden (s : St) : notReadErrors (Ls.checkReadError dirname s).out = notReadErrors s.out ∧
      notReadErrors ((Ls.checkReadError dirname s).out.map Out.shorten) =
        notReadErrors (s.out.map Out.shorten) := by
    unfold Ls.checkReadError
    split <;> simp [notReadErrors, Out.isReadError, Out.shorten]
  refine ⟨by unfold Ls.checkReadError; split <;> split <;> exact h.1, ?_⟩
  rw [(hidden b).1, (hidden a).2]
  exact h.2

/-- Without `-l`, every change of state is the one with `-l`, seen through `Shortens`. -/
theorem shortens_lockstep (sys : Sys) (countOnly listLong : Bool) :
    Lockstep sys countOnly listLong countOnly false Shortens where
  fail _ h := h
  clearErrno h := h
  report what path e h := h.print rfl
  checkReadError dirname h := h.checkReadError dirname
  listFile path name h := by
    unfold listFile
    cases sys.stat path with
    | error e => exact h.print rfl
    | ok sb =>
      dsimp only
      split
      · exact ⟨congrArg (· + 1) h.1, h.2⟩
      · split
        · exact @Shortens.print _ _ h [.long ..] _ rfl
        · exact h.print rfl
  layout os hos h := by
    split
    · exact h
    · exact h.print (Out.map_shorten_eq fun o mem => by
        rcases hos o mem with rfl | ⟨_, rfl⟩ <;> rfl).symm

/-- The count `main` prints at the end under `-n` is the same on both sides. -/
theorem Counted.shortens {countOnly : Bool} {a b : St}
    (h : Counted countOnly countOnly Shortens a b) : Shortens a b := by
  obtain ⟨a₀, b₀, h, rfl, rfl⟩ := h
  split
  · rw [h.1]
    exact h.print rfl
  · exact h

/-- **`-l` changes only the lines for files.** For every system, option list and operand list,
`ls` without `-l` comes back exactly when `ls -l` does, and prints what `ls -l` prints, each long
line shortened to its name and its `/`: the same files in the same order, the same errors and the
same layout, apart from the reports of an error reading a directory. Those the lookups of `-l`
can add or take away, since `getpwuid`, `getgrgid` and the first `localtime` write `errno`. -/
theorem ls_long {sys : Sys} {fuel : Nat} {opts : List Char} {operands : List String} :
    (ls sys fuel (opts.filter (· != 'l')) operands).map (fun r => notReadErrors r.1) =
      (ls sys fuel opts operands).map fun r => notReadErrors (r.1.map Out.shorten) := by
  unfold ls
  rcases parseOpts_filter_cases (c := 'l') (by simp) opts with ⟨s, e, e'⟩ | ⟨g, g', s, e, e'⟩
  · obtain ⟨os, hs, printed⟩ := parseOpts_snd opts Flags.init St.init
    rw [e] at hs
    dsimp only at hs
    subst hs
    have same : os.map Out.shorten = os := Out.map_shorten_eq fun o mem => by
      rcases printed o mem with rfl | ⟨_, rfl⟩ <;> rfl
    rw [e, e']
    simp [St.init, same]
  · have flags : g' = { g with countOnly := g.countOnly, listLong := false } := by
      rw [parseOpts_flags e, parseOpts_flags e']
      simp [List.mem_filter, Flags.init]
    have dot := shortens_lockstep sys g.countOnly (!g.countOnly && g.listLong)
    rw [← Bool.and_false (!g.countOnly)] at dot
    have run := (shortens_lockstep sys g.countOnly g.listLong).lsMain dot rfl rfl fuel operands
      (show Shortens s s from ⟨rfl, ?_⟩)
    · rw [e, e', flags]
      simp only [Option.map_map]
      exact run.map_eq fun h => h.shortens.2
    · obtain ⟨os, hs, printed⟩ := parseOpts_snd opts Flags.init St.init
      rw [e] at hs
      dsimp only at hs
      subst hs
      rw [Out.map_shorten_eq fun o mem => by
        rcases printed o (by simpa [St.init] using mem) with rfl | ⟨_, rfl⟩ <;> rfl]

end Labs.Ls

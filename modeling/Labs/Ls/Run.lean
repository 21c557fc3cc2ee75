import Labs.Ls.Main

/-!
# Relations every step of `ls` keeps

`main.c` changes its state in few ways: a failing call sets `errno`, `list_dir` clears it before
each loop, `handle_error` reports, `list_file` prints or counts one file, and `main` and
`list_dir` print headers, blank lines and the count. A preorder on states that each of these
changes respects (`StepRel`) relates the state before every run of `list_dir`, of each loop of
`main` and of `main` itself to the state after it: the induction over the recursion and the loops
is done here once.

* `StepRel.listDir`, `StepRel.lsMain`: the lifting.
* `Appends`, `Grows`: the output only grows, a first such relation.
-/

namespace Labs.Ls

/-- A preorder on states that every change `ls` makes to its state respects, with `-a` set to
`listAll` and with `operands`: `list_file` is called on the entries `list_dir` does not skip,
and on the operands under their last component. -/
structure StepRel (sys : Sys) (listAll : Bool) (operands : List String) (R : St → St → Prop) :
    Prop where
  refl : ∀ s, R s s
  trans : ∀ {s t u}, R s t → R t u → R s u
  fail : ∀ s e, R s (s.fail e)
  clearErrno : ∀ s, R s { s with errno := 0 }
  handleError : ∀ what path s, R s (handleError what path s)
  listEntry : ∀ countOnly dirname name listLong s, (listAll || !startsWithDot name) = true →
    R s (listFile sys countOnly (joinPath dirname name) name listLong s)
  listOperand : ∀ countOnly path listLong s, path ∈ operands →
    R s (listFile sys countOnly path (lastComponent path) listLong s)
  layout : ∀ s os, (∀ o ∈ os, o = .blank ∨ (∃ path, o = .header path) ∨ ∃ n, o = .count n) →
    R s (s.print os)

namespace StepRel

variable {sys : Sys} {listAll : Bool} {operands : List String} {R : St → St → Prop}

theorem testFile (h : StepRel sys listAll operands R) (path : String) (s : St) : R s (Ls.testFile sys path s).2 := by
  unfold Ls.testFile; split
  · exact h.refl s
  · exact h.trans (h.fail s _) (h.handleError _ _ _)

theorem isDir (h : StepRel sys listAll operands R) (path : String) (s : St) : R s (Ls.isDir sys path s).2 := by
  unfold Ls.isDir; split
  · exact h.refl s
  · exact h.fail s _

theorem listEntries (h : StepRel sys listAll operands R) (countOnly listLong : Bool) (dirname : String)
    (names : List String) (s : St) :
    R s (Ls.listEntries sys countOnly listLong listAll dirname names s) := by
  induction names generalizing s with
  | nil => exact h.refl s
  | cons name rest ih =>
    refine h.trans ?_ (ih _)
    split
    · exact h.refl s
    · rename_i listed
      exact h.listEntry _ _ _ _ s (by cases listAll <;> simp_all)

theorem readdirEnd (h : StepRel sys listAll operands R) (endErr : Option Errno) (s : St) :
    R s (Ls.readdirEnd endErr s) := by
  cases endErr
  · exact h.refl s
  · exact h.fail s _

theorem checkReadError (h : StepRel sys listAll operands R) (dirname : String) (s : St) :
    R s (Ls.checkReadError dirname s) := by
  unfold Ls.checkReadError; split
  · exact h.handleError _ _ s
  · exact h.refl s

/-- One pass of `list_dir` over the entries with `errno` cleared first, closed by its check. -/
theorem pass (h : StepRel sys listAll operands R) (dirname : String) (endErr : Option Errno) {s t : St}
    (loop : R { s with errno := 0 } t) :
    R s (Ls.checkReadError dirname (Ls.readdirEnd endErr t)) :=
  h.trans (h.trans (h.clearErrno s) loop) (h.trans (h.readdirEnd _ t) (h.checkReadError _ _))

/-- The second loop of `list_dir` respects `R` when each listing of a subdirectory does. -/
theorem recurseEntries (h : StepRel sys listAll operands R) {countOnly listAll : Bool} {dirname : String}
    {listSub : String → St → Option St} (sub : ∀ path s s', listSub path s = some s' → R s s')
    {names : List String} {s s' : St}
    (run : Ls.recurseEntries sys countOnly listAll dirname listSub names s = some s') : R s s' := by
  induction names generalizing s with
  | nil => cases run; exact h.refl _
  | cons name rest ih =>
    unfold Ls.recurseEntries at run
    split at run
    · exact ih run
    · have hd := h.isDir (joinPath dirname name) s
      split at run
      · rename_i s₁ dir
        rw [dir] at hd
        obtain ⟨s₂, listed, run⟩ := Option.bind_eq_some.mp run
        refine h.trans hd (h.trans ?_ (h.trans (sub _ _ _ listed) (ih run)))
        split
        · exact h.refl s₁
        · exact h.layout _ _ (by simp)
      · rename_i s₁ dir
        rw [dir] at hd
        exact h.trans hd (ih run)

/-- **`list_dir`** respects `R`, at every depth of the recursion. -/
theorem listDir (h : StepRel sys listAll operands R) {countOnly listLong : Bool} {fuel : Nat}
    {recursive : Bool} {dirname : String} {s s' : St}
    (run : Ls.listDir sys countOnly listLong listAll fuel recursive dirname s = some s') :
    R s s' := by
  induction fuel generalizing recursive dirname s s' with
  | zero => cases run
  | succ fuel ih =>
    unfold Ls.listDir at run
    cases hr : sys.readdir dirname with
    | error e => rw [hr] at run; cases run; exact h.trans (h.fail s e) (h.handleError _ _ _)
    | ok r =>
      obtain ⟨names, endErr⟩ := r
      rw [hr] at run
      have first := h.pass dirname endErr
        (h.listEntries countOnly listLong dirname names { s with errno := 0 })
      dsimp only at run
      split at run
      · obtain ⟨s₂, second, rfl⟩ := Option.map_eq_some'.mp run
        exact h.trans first (h.pass _ _ (h.recurseEntries (fun _ _ _ r => ih r) second))
      · cases run; exact first

theorem listFileOperands (h : StepRel sys listAll operands R) (countOnly listLong : Bool)
    {paths : List String} (given : ∀ path ∈ paths, path ∈ operands) (printed : Bool) (s : St) :
    R s (Ls.listFileOperands sys countOnly listLong paths (printed, s)).2 := by
  induction paths generalizing printed s with
  | nil => exact h.refl s
  | cons path rest ih =>
    have ih := ih fun p mem => given p (.tail path mem)
    have ht := h.testFile path s
    unfold Ls.listFileOperands
    generalize Ls.testFile sys path s = r at ht
    rcases r with ⟨_ | _, s₁⟩ <;> dsimp only
    · exact h.trans ht (ih _ _)
    · have hd := h.isDir path s₁
      generalize Ls.isDir sys path s₁ = r at hd
      rcases r with ⟨_ | _, s₂⟩ <;> dsimp only
      · refine h.trans ht (h.trans hd (h.trans ?_ (ih _ _)))
        exact h.listOperand _ _ _ _ (given path (.head rest))
      · exact h.trans ht (h.trans hd (ih _ _))

theorem haveDirOperand (h : StepRel sys listAll operands R) (paths : List String) (s : St) :
    R s (Ls.haveDirOperand sys paths s).2 := by
  induction paths generalizing s with
  | nil => exact h.refl s
  | cons path rest ih =>
    have ht := h.testFile path s
    unfold Ls.haveDirOperand
    generalize Ls.testFile sys path s = r at ht
    rcases r with ⟨_ | _, s₁⟩ <;> dsimp only
    · exact h.trans ht (ih _)
    · have hd := h.isDir path s₁
      generalize Ls.isDir sys path s₁ = r at hd
      rcases r with ⟨_ | _, s₂⟩ <;> dsimp only
      · exact h.trans ht (h.trans hd (ih _))
      · exact h.trans ht hd

theorem listDirOperands (h : StepRel sys listAll operands R) {f : Flags} (hf : f.listAll = listAll)
    {fuel : Nat} {multiple printedAnyFile : Bool} {paths : List String} {firstDir : Bool} {s s' : St}
    (run : Ls.listDirOperands sys f fuel multiple printedAnyFile paths (firstDir, s) = some s') :
    R s s' := by
  induction paths generalizing firstDir s with
  | nil => cases run; exact h.refl _
  | cons path rest ih =>
    have ht := h.testFile path s
    unfold Ls.listDirOperands at run
    generalize Ls.testFile sys path s = r at ht run
    rcases r with ⟨_ | _, s₁⟩ <;> dsimp only at run
    · exact h.trans ht (ih run)
    · have hd := h.isDir path s₁
      generalize Ls.isDir sys path s₁ = r at hd run
      rcases r with ⟨_ | _, s₂⟩ <;> dsimp only at run
      · exact h.trans ht (h.trans hd (ih run))
      · refine h.trans ht (h.trans hd ?_)
        split at run <;> obtain ⟨s₃, listed, run⟩ := Option.bind_eq_some.mp run
        · refine h.trans (h.layout _ _ ?_) (h.trans (h.listDir (hf ▸ listed)) (ih run))
          split <;> simp
        · exact h.trans (h.listDir (hf ▸ listed)) (ih run)

/-- **`main`** after the options respects `R`. -/
theorem lsMain (h : StepRel sys listAll operands R) {fuel : Nat} {f : Flags}
    (hf : f.listAll = listAll) {s s' : St} (run : Ls.lsMain sys fuel f operands s = some s') :
    R s s' := by
  unfold Ls.lsMain at run
  split at run
  · split at run
    · obtain ⟨s₁, listed, rfl⟩ := Option.map_eq_some'.mp run
      exact h.trans (h.listDir (hf ▸ listed)) (h.layout _ _ (by simp))
    · exact h.listDir (hf ▸ run)
  · have h₁ := h.listFileOperands f.countOnly f.listLong (fun _ => id) false s
    generalize Ls.listFileOperands sys f.countOnly f.listLong operands (false, s) = r at h₁ run
    obtain ⟨printed, s₁⟩ := r
    have h₂ := h.haveDirOperand operands s₁
    dsimp only at run
    generalize Ls.haveDirOperand sys operands s₁ = r at h₂ run
    obtain ⟨haveDir, s₂⟩ := r
    obtain ⟨s₃, listed, rfl⟩ := Option.map_eq_some'.mp run
    refine h.trans h₁ (h.trans h₂ (h.trans (t := s₃) ?_ ?_))
    · split at listed
      · exact h.trans (h.layout _ _ (by simp)) (h.listDirOperands hf listed)
      · exact h.listDirOperands hf listed
    · split
      · exact h.layout _ _ (by simp)
      · exact h.refl s₃

end StepRel

/-- `t` has printed what `s` had, then events that each satisfy `P`. -/
def Appends (P : Out → Prop) (s t : St) : Prop := ∃ os, t.out = s.out ++ os ∧ ∀ o ∈ os, P o

theorem Appends.refl (P : Out → Prop) (s : St) : Appends P s s := ⟨[], by simp, by simp⟩

theorem Appends.trans {P : Out → Prop} {s t u : St} (st : Appends P s t) (tu : Appends P t u) :
    Appends P s u := by
  obtain ⟨a, ha, pa⟩ := st
  obtain ⟨b, hb, pb⟩ := tu
  exact ⟨a ++ b, by rw [hb, ha, List.append_assoc],
    fun o mem => (List.mem_append.mp mem).elim (pa o) (pb o)⟩

theorem Appends.mono {P Q : Out → Prop} (h : ∀ o, P o → Q o) {s t : St} (a : Appends P s t) :
    Appends Q s t :=
  let ⟨os, ht, hp⟩ := a
  ⟨os, ht, fun o mem => h o (hp o mem)⟩

theorem Appends.print {P : Out → Prop} (s : St) {os : List Out} (h : ∀ o ∈ os, P o) :
    Appends P s (s.print os) := ⟨os, rfl, h⟩

/-- The output only grows. -/
def Grows : St → St → Prop := Appends fun _ => True

theorem Grows.listFile (sys : Sys) (countOnly : Bool) (path name : String) (listLong : Bool)
    (s : St) : Grows s (listFile sys countOnly path name listLong s) := by
  unfold Ls.listFile; split
  · exact Appends.print _ (by simp)
  · split
    · exact Appends.refl _ s
    · split <;> exact ⟨_, rfl, by simp⟩

theorem grows (sys : Sys) (listAll : Bool) (operands : List String) :
    StepRel sys listAll operands Grows where
  refl := Appends.refl _
  trans := Appends.trans
  fail s _ := Appends.refl _ s
  clearErrno s := Appends.refl _ s
  handleError _ _ s := Appends.print s (by simp)
  listEntry _ _ _ _ _ _ := Grows.listFile ..
  listOperand _ _ _ _ _ := Grows.listFile ..
  layout s _ _ := Appends.print s (by simp)

/-- `t` holds what `s` printed, then a list that holds `o`. -/
def Reports (o : Out) (s t : St) : Prop := ∃ os, t.out = s.out ++ os ∧ o ∈ os

theorem Reports.grows {o : Out} {s t u : St} (h : Reports o s t) (g : Grows t u) : Reports o s u := by
  obtain ⟨os, ht, mem⟩ := h
  obtain ⟨more, hu, -⟩ := g
  exact ⟨os ++ more, by rw [hu, ht, List.append_assoc], List.mem_append_left _ mem⟩

theorem Grows.reports {o : Out} {s t u : St} (g : Grows s t) (h : Reports o t u) : Reports o s u := by
  obtain ⟨more, ht, -⟩ := g
  obtain ⟨os, hu, mem⟩ := h
  exact ⟨more ++ os, by rw [hu, ht, List.append_assoc], List.mem_append_right _ mem⟩

theorem Reports.toGrows {o : Out} {s t : St} (h : Reports o s t) : Grows s t :=
  let ⟨os, ht, _⟩ := h
  ⟨os, ht, fun _ _ => trivial⟩

end Labs.Ls

import Labs.Ls.Run

/-!
# The exit status of `ls` is what its output shows

`err_code` only ever gains bits, and each time it does the program prints an event that shows
why: `handle_error` prints the error line and sets the "some error" bit (`0x40`) and the bit of
the kind of `errno`; `-l` prints a number in place of an owner or group it cannot name and sets
the "some error" and "other error" bits. So along every run `err_code` is the union of the bits
of the events printed so far (`Tracks`), and the exit status is that union over the whole
output.

* `exitOf`: the bits of a list of events.
* `tracks`: every step keeps the invariant, so every run of `list_dir` and of `main` does.
* `ls_exit_status`: the exit status of every run.
* `ls_exit_bits`: what each bit of a kind says about the output.
-/

namespace Labs.Ls

/-- The bits of `err_code` an event shows: an error line the "some error" bit and the bit of
its kind, a long line the bits of each number it prints in place of a name. -/
def Out.bits : Out → Nat
  | .error _ _ errno => 0x40 ||| errClass errno
  | .long _ _ _ owner group _ _ _ _ => idErr group (idErr owner 0)
  | _ => 0

/-- The bits a list of events shows. -/
def exitOf (out : List Out) : Nat := out.foldl (fun code o => code ||| o.bits) 0

theorem lor_eq_zero {a b : Nat} : a ||| b = 0 ↔ a = 0 ∧ b = 0 := by
  refine ⟨fun h => ?_, fun ⟨ha, hb⟩ => by rw [ha, hb]; rfl⟩
  have bits (i : Nat) : a.testBit i = false ∧ b.testBit i = false := by
    have := congrArg (Nat.testBit · i) h
    simp only [Nat.testBit_lor, Nat.zero_testBit, Bool.or_eq_false_iff] at this
    exact this
  exact ⟨Nat.eq_of_testBit_eq fun i => by simp [(bits i).1],
    Nat.eq_of_testBit_eq fun i => by simp [(bits i).2]⟩

theorem foldl_bits (out : List Out) (code : Nat) :
    out.foldl (fun code o => code ||| o.bits) code = code ||| exitOf out := by
  induction out generalizing code with
  | nil => simp [exitOf]
  | cons o out ih =>
    unfold exitOf
    rw [List.foldl_cons, List.foldl_cons, ih, ih, Nat.zero_or, Nat.lor_assoc]

@[simp] theorem exitOf_nil : exitOf [] = 0 := rfl

@[simp] theorem exitOf_append (out out' : List Out) :
    exitOf (out ++ out') = exitOf out ||| exitOf out' := by
  rw [exitOf, List.foldl_append, foldl_bits, foldl_bits, Nat.zero_or]

@[simp] theorem exitOf_cons (o : Out) (out : List Out) : exitOf (o :: out) = o.bits ||| exitOf out := by
  rw [exitOf, List.foldl_cons, foldl_bits, Nat.zero_or]

theorem exitOf_eq_zero_iff {out : List Out} : exitOf out = 0 ↔ ∀ o ∈ out, o.bits = 0 := by
  induction out with
  | nil => simp
  | cons o out ih => simp [lor_eq_zero, ih]

/-- Every event shows no bit, or the "some error" bit and one of the bits of a kind. -/
theorem Out.bits_cases (o : Out) : o.bits = 0 ∨ o.bits = 0x48 ∨ o.bits = 0x50 ∨ o.bits = 0x60 := by
  have kind (errno : Nat) : errClass errno = 0x08 ∨ errClass errno = 0x10 ∨ errClass errno = 0x20 := by
    unfold errClass; split_ifs <;> simp
  have id (x : String ⊕ Nat) (code : Nat) (h : code = 0 ∨ code = 0x60) :
      idErr x code = 0 ∨ idErr x code = 0x60 := by
    cases x <;> rcases h with rfl | rfl <;> simp [idErr]
  cases o with
  | error _ _ errno => rcases kind errno with h | h | h <;> simp [Out.bits, h]
  | long _ _ _ owner group =>
    rcases id group _ (id owner 0 (.inl rfl)) with h | h <;> simp [Out.bits, h]
  | _ => simp [Out.bits]

/-- The bits of any output fit in seven bits, and hold the "some error" bit as soon as they
hold any. -/
theorem exitOf_lt (out : List Out) : exitOf out < 0x80 ∧ (exitOf out ≠ 0 → (exitOf out).testBit 6) := by
  induction out with
  | nil => simp
  | cons o out ih =>
    rw [exitOf_cons]
    refine ⟨Nat.or_lt_two_pow (n := 7) ?_ ih.1, fun ne => ?_⟩
    · rcases o.bits_cases with h | h | h | h <;> simp [h]
    · rw [Nat.testBit_lor]
      rcases o.bits_cases with h | h | h | h
      · rw [h, Nat.zero_or] at ne
        rw [h, ih.2 ne, Bool.or_true]
      all_goals rw [h, Bool.or_eq_true]; exact .inl (by decide)

/-! ## The invariant -/

/-- `err_code` holds exactly the bits of what has been printed. -/
def Tracks (s : St) : Prop := s.errCode = exitOf s.out

theorem Tracks.init : Tracks St.init := rfl

section Steps

variable {sys : Sys} {s : St}

theorem Tracks.print (h : Tracks s) {os : List Out} (zero : ∀ o ∈ os, o.bits = 0) :
    Tracks (s.print os) := by
  rw [Tracks, St.print_out, St.print_errCode, exitOf_append, exitOf_eq_zero_iff.mpr zero,
    Nat.or_zero]
  exact h

theorem Tracks.fail (h : Tracks s) (e : Errno) : Tracks (s.fail e) := h

theorem Tracks.handleError (h : Tracks s) (what fullname : String) :
    Tracks (handleError what fullname s) := by
  rw [Tracks, handleError_out, handleError_errCode, exitOf_append, ← h, Nat.lor_assoc]
  simp [Out.bits]

theorem idErr_eq (x : String ⊕ Nat) (code : Nat) : idErr x code = code ||| idErr x 0 := by
  cases x <;> simp [idErr, Nat.lor_assoc]

theorem Tracks.listFile (h : Tracks s) (countOnly : Bool) (path name : String) (listLong : Bool) :
    Tracks (listFile sys countOnly path name listLong s) := by
  unfold Labs.Ls.listFile; split
  · exact (h.fail _).handleError _ _
  · split
    · exact h
    · split
      · simp only [Tracks, exitOf_append, exitOf_cons, exitOf_nil, Nat.or_zero, Out.bits]
        rw [idErr_eq _ (idErr _ _), idErr_eq _ s.errCode, h, idErr_eq _ (idErr _ 0), Nat.lor_assoc]
      · exact h.print (by simp [Out.bits])

theorem Tracks.parseOpts (h : Tracks s) (opts : List Char) (f : Flags) :
    Tracks (Ls.parseOpts opts (f, s)).2 := by
  obtain ⟨os, e, printed⟩ := parseOpts_snd opts f s
  rw [e]
  exact h.print fun o mem => by rcases printed o mem with rfl | ⟨c, rfl⟩ <;> rfl

/-- `Tracks` is kept by every change `ls` makes to its state. -/
theorem tracks (sys : Sys) (listAll : Bool) (operands : List String) :
    StepRel sys listAll operands fun s t => Tracks s → Tracks t where
  refl _ := id
  trans st tu := tu ∘ st
  fail _ _ := id
  clearErrno _ := id
  handleError what path _ h := h.handleError what path
  listEntry countOnly _ name listLong _ _ h := h.listFile countOnly _ name listLong
  listOperand countOnly path listLong _ _ h := h.listFile countOnly path _ listLong
  layout _ _ layout h := h.print fun o mem => by
    rcases layout o mem with rfl | ⟨_, rfl⟩ | ⟨_, rfl⟩ <;> rfl

end Steps

/-- `ls` exits with the bits of what it printed. -/
theorem ls_code {sys : Sys} {fuel : Nat} {opts : List Char} {operands : List String}
    {out : List Out} {code : Nat} (run : ls sys fuel opts operands = some (out, code)) :
    code = exitOf out := by
  have h₀ : Tracks (parseOpts opts (Flags.init, St.init)).2 := Tracks.init.parseOpts _ _
  obtain ⟨os, e, -⟩ := parseOpts_snd opts Flags.init St.init
  unfold ls at run
  generalize parseOpts opts (Flags.init, St.init) = r at h₀ e run
  obtain ⟨_ | f, s⟩ := r <;> dsimp only at run
  · cases run
    rw [← h₀, e]
    rfl
  · obtain ⟨s', listed, ⟨⟩⟩ := Option.map_eq_some'.mp run
    exact (tracks sys f.listAll operands).lsMain rfl listed h₀

/-- **The exit status of `ls`.** Whatever the system and the command line, `ls` exits with the
bits of what it printed: below `0x80`; `0` exactly when it printed no error line and named every
owner and group; and with the "some error" bit whenever it is not `0`. -/
theorem ls_exit_status {sys : Sys} {fuel : Nat} {opts : List Char} {operands : List String}
    {out : List Out} {code : Nat} (run : ls sys fuel opts operands = some (out, code)) :
    code = exitOf out ∧ code < 0x80 ∧ (code = 0 ↔ ∀ o ∈ out, o.bits = 0) ∧
      (code ≠ 0 → code.testBit 6) := by
  obtain rfl := ls_code run
  exact ⟨rfl, (exitOf_lt out).1, exitOf_eq_zero_iff, (exitOf_lt out).2⟩

/-- `ls -R -l missing d` on `sampleTree`: three reports of `missing`, one of `d/gone`, the
"error reading directory" its `stat` leaves behind, and an owner without a name. -/
def sampleRun : List Out × Nat :=
  (ls sampleTree 2 ['R', 'l'] ["missing", "d"]).get (by with_unfolding_all decide)

theorem sampleRun_exit_status :
    sampleRun.2 = exitOf sampleRun.1 ∧ sampleRun.2 < 0x80 ∧
      (sampleRun.2 = 0 ↔ ∀ o ∈ sampleRun.1, o.bits = 0) ∧
      (sampleRun.2 ≠ 0 → sampleRun.2.testBit 6) :=
  ls_exit_status (show ls sampleTree 2 ['R', 'l'] ["missing", "d"] = some sampleRun from
    Option.eq_some_of_isSome _)

/-! ## The bits one by one -/

/-- A long line with a number in place of its owner or its group. -/
def Out.unnamed : Out → Bool
  | .long _ _ _ owner group _ _ _ _ => owner.isRight || group.isRight
  | _ => false

/-- A bit of the bits of an output is the same bit of one of its events. -/
theorem testBit_exitOf (out : List Out) (i : Nat) :
    (exitOf out).testBit i = true ↔ ∃ o ∈ out, o.bits.testBit i = true := by
  induction out with
  | nil => simp
  | cons o out ih => simp [Nat.testBit_lor, ih]

/-- The bit of each kind of error marks exactly the `errno`s of that kind. -/
theorem testBit_errClass (errno : Nat) :
    ((errClass errno).testBit 3 = true ↔ errno = enoent) ∧
    ((errClass errno).testBit 4 = true ↔ errno = eacces ∨ errno = eperm) ∧
    ((errClass errno).testBit 5 = true ↔ errno ≠ enoent ∧ ¬(errno = eacces ∨ errno = eperm)) := by
  unfold errClass
  split_ifs with h₁ h₂
  · subst h₁; decide
  · rcases h₂ with rfl | rfl <;> decide
  · simp only [ne_eq, h₁, h₂, iff_false, not_false_eq_true, and_self, iff_true]; decide

/-- Bits 3, 4 and 5 of an event: an error line of each kind, and (bit 5 also) a long line that
names no owner or no group. -/
theorem Out.testBit_bits (o : Out) :
    (o.bits.testBit 3 = true ↔ ∃ what path, o = .error what path enoent) ∧
    (o.bits.testBit 4 = true ↔
      ∃ what path errno, o = .error what path errno ∧ (errno = eacces ∨ errno = eperm)) ∧
    (o.bits.testBit 5 = true ↔
      (∃ what path errno, o = .error what path errno ∧ errno ≠ enoent ∧
        ¬(errno = eacces ∨ errno = eperm)) ∨ o.unnamed = true) := by
  have low (x i : Nat) (hi : i < 6) : (0x40 ||| x).testBit i = x.testBit i := by
    rw [Nat.testBit_lor, Nat.testBit_two_pow_of_ne (n := 6) (by omega), Bool.false_or]
  cases o with
  | error what path errno =>
    simp only [Out.bits, low _ 3 (by omega), low _ 4 (by omega), low _ 5 (by omega), testBit_errClass]
    simp [Out.unnamed, and_assoc]
  | long _ _ _ owner group =>
    cases owner <;> cases group <;> simp [Out.bits, idErr, Out.unnamed] <;> decide
  | _ => simp [Out.bits, Out.unnamed]

theorem exists_mem_error {out : List Out} {P : Nat → Prop} :
    (∃ o ∈ out, ∃ what path errno, o = .error what path errno ∧ P errno) ↔
      ∃ what path errno, Out.error what path errno ∈ out ∧ P errno :=
  ⟨fun ⟨_, mem, what, path, errno, e, p⟩ => ⟨what, path, errno, e ▸ mem, p⟩,
   fun ⟨what, path, errno, mem, p⟩ => ⟨_, mem, what, path, errno, rfl, p⟩⟩

/-- **What each bit of the exit status says.** Bit 3 is set exactly when `ls` reported a missing
file, bit 4 exactly when it reported one it may not access, and bit 5 exactly when it reported
another error or printed a number for an owner or group it could not name. -/
theorem ls_exit_bits {sys : Sys} {fuel : Nat} {opts : List Char} {operands : List String}
    {out : List Out} {code : Nat} (run : ls sys fuel opts operands = some (out, code)) :
    (code.testBit 3 = true ↔ ∃ what path, Out.error what path enoent ∈ out) ∧
    (code.testBit 4 = true ↔
      ∃ what path errno, Out.error what path errno ∈ out ∧ (errno = eacces ∨ errno = eperm)) ∧
    (code.testBit 5 = true ↔
      (∃ what path errno, Out.error what path errno ∈ out ∧ errno ≠ enoent ∧
        ¬(errno = eacces ∨ errno = eperm)) ∨ ∃ o ∈ out, o.unnamed = true) := by
  have enoent_mem := @exists_mem_error out (· = enoent)
  simp only [exists_eq_right, exists_and_left] at enoent_mem
  simp only [ls_code run, testBit_exitOf, Out.testBit_bits, and_or_left, exists_or, exists_mem_error,
    ← enoent_mem, and_self]

/-- `ls -R -l missing d` exits with bit 3 for `missing`, not bit 4, and bit 5 for the owner
without a name. -/
theorem sampleRun_exit_bits :
    (sampleRun.2.testBit 3 = true ↔ ∃ what path, Out.error what path enoent ∈ sampleRun.1) ∧
    (sampleRun.2.testBit 4 = true ↔
      ∃ what path errno, Out.error what path errno ∈ sampleRun.1 ∧ (errno = eacces ∨ errno = eperm)) ∧
    (sampleRun.2.testBit 5 = true ↔
      (∃ what path errno, Out.error what path errno ∈ sampleRun.1 ∧ errno ≠ enoent ∧
        ¬(errno = eacces ∨ errno = eperm)) ∨ ∃ o ∈ sampleRun.1, o.unnamed = true) :=
  ls_exit_bits (show ls sampleTree 2 ['R', 'l'] ["missing", "d"] = some sampleRun from
    Option.eq_some_of_isSome _)

end Labs.Ls

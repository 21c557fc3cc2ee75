import Mathlib.Data.List.Count

/-!
# The small programs of lab 1: `countas` and `first3`

Each is one run of `main(argc, argv)`: what it writes on `stdout` and on `stderr`, and what it
returns. A C string is the list of its `char`s without the NUL that ends it (`CStr`); no argument
of `argv` holds a NUL.

* `countas_counts`: the loop of `countas` walks its argument up to the NUL, so it prints the
  number of `a`s the argument holds.
* `first3_reads_inside`: `first3` checks the lengths before it reads, so every `char` it reads
  lies inside its arguments; it succeeds exactly with two arguments of three `char`s or more, and
  then prints the first three of each.
-/

namespace Labs.Mini

/-- A C string: its `char`s, none of them the NUL that ends it. -/
structure CStr where
  chars : List Char
  noNul : '\x00' ∉ chars

/-- What a run of `main` leaves: the `char`s written on `stdout` and on `stderr`, and the value
`main` returns. -/
structure Exit where
  stdout : List Char
  stderr : List Char
  status : Nat
  deriving DecidableEq, Repr

/-- `argv[0]`; with `argc == 0` it is `NULL`, which glibc's `printf` writes as `(null)`. -/
def progName : List CStr → List Char
  | p :: _ => p.chars
  | [] => "(null)".toList

/-- `s[i]`: the `char` at `i`, and the NUL at `strlen(s)`; a read past the NUL is undefined. -/
def CStr.get? (s : CStr) (i : Nat) : Option Char := (s.chars ++ ['\x00']).get? i

/-! ## `countas` -/

/-- The `for` loop of `countas` over the memory from `s[i]` on: it stops at a NUL and counts
each `a` before it. -/
def countLoop : List Char → Nat → Nat
  | [], count => count
  | c :: rest, count =>
    if c = '\x00' then count else countLoop rest (if c = 'a' then count + 1 else count)

/-- `countas`: with one argument, prints how many `a`s it holds (`printf("%d\n", count)`). -/
def countas (argv : List CStr) : Exit :=
  match argv with
  | [_, s] => ⟨(toString (countLoop (s.chars ++ ['\x00']) 0)).toList ++ ['\n'], [], 0⟩
  | _ => ⟨[], "usage: ".toList ++ progName argv ++ " <arg>\n".toList, 1⟩

/-- Over a string and its NUL, the loop adds the number of `a`s of the string. -/
theorem countLoop_nul (cs rest : List Char) (noNul : '\x00' ∉ cs) (count : Nat) :
    countLoop (cs ++ '\x00' :: rest) count = count + cs.count 'a' := by
  induction cs generalizing count with
  | nil => simp [countLoop]
  | cons c cs ih =>
    rw [List.mem_cons, not_or] at noNul
    rw [List.cons_append, countLoop, if_neg (Ne.symm noNul.1), ih noNul.2, List.count_cons]
    by_cases h : c = 'a'
    · simp [h]; omega
    · simp [h]

/-- **`countas` counts the `a`s of its argument.** Whatever its name and its argument, it prints
their number and a newline, and returns `0`. -/
theorem countas_counts (prog s : CStr) :
    countas [prog, s] = ⟨(toString (s.chars.count 'a')).toList ++ ['\n'], [], 0⟩ := by
  rw [countas, countLoop_nul s.chars [] s.noNul, Nat.zero_add]

example : countas [⟨"countas".toList, by decide⟩, ⟨"banana".toList, by decide⟩] =
    ⟨['3', '\n'], [], 0⟩ := by decide

/-! ## `first3` -/

/-- A `for` loop of `first3`: `putchar(s[i])` for `i` from `0` to `2`; `none` when a read is
undefined. -/
def putFirst3 (s : CStr) : Option (List Char) := (List.range 3).mapM s.get?

/-- `first3`: with two arguments of three `char`s or more, prints the first three of each. -/
def first3 (argv : List CStr) : Option Exit :=
  match argv with
  | [_, s1, s2] =>
    if s1.chars.length < 3 ∨ s2.chars.length < 3 then
      some ⟨[], progName argv ++
        ": error: one or more arguments have fewer than 3 characters\n".toList, 1⟩
    else do
      let p1 ← putFirst3 s1
      let p2 ← putFirst3 s2
      pure ⟨p1 ++ p2 ++ ['\n'], [], 0⟩
  | _ => some ⟨[], "Usage: ".toList ++ progName argv ++ " string1 string2\n".toList, 1⟩

/-- The three reads inside a string of three `char`s or more are its first three. -/
theorem putFirst3_of_le {s : CStr} (long : 3 ≤ s.chars.length) :
    putFirst3 s = some (s.chars.take 3) := by
  obtain ⟨_ | ⟨c₀, _ | ⟨c₁, _ | ⟨c₂, rest⟩⟩⟩, _⟩ := s <;> simp at long
  rfl

/-- **`first3` reads only inside its arguments.** On every command line its run is defined. It
returns `0` exactly with two arguments of three `char`s or more, and then it has printed their
first three `char`s and a newline; otherwise it returns `1` and prints nothing on `stdout`. -/
theorem first3_reads_inside (argv : List CStr) :
    ∃ e, first3 argv = some e ∧
      (e.status = 0 ↔ ∃ prog s1 s2, argv = [prog, s1, s2] ∧
        3 ≤ s1.chars.length ∧ 3 ≤ s2.chars.length) ∧
      (e.status = 0 → ∃ prog s1 s2, argv = [prog, s1, s2] ∧
        e.stdout = s1.chars.take 3 ++ s2.chars.take 3 ++ ['\n']) ∧
      (e.status ≠ 0 → e.status = 1 ∧ e.stdout = []) := by
  match argv with
  | [prog, s1, s2] =>
    by_cases short : s1.chars.length < 3 ∨ s2.chars.length < 3
    · refine ⟨_, by rw [first3, if_pos short], ?_⟩
      simp
      omega
    · rw [not_or, Nat.not_lt, Nat.not_lt] at short
      refine ⟨⟨s1.chars.take 3 ++ s2.chars.take 3 ++ ['\n'], [], 0⟩, ?_, ?_⟩
      · rw [first3, if_neg (by omega), putFirst3_of_le short.1, putFirst3_of_le short.2]
        rfl
      exact ⟨⟨fun _ => ⟨prog, s1, s2, rfl, short⟩, fun _ => rfl⟩, fun _ => ⟨prog, s1, s2, rfl, rfl⟩,
        fun ne => absurd rfl ne⟩
  | [] | [_] | [_, _] | _ :: _ :: _ :: _ :: _ => simp [first3]

end Labs.Mini

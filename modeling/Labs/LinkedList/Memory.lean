import Mathlib.Data.List.Infix
import Mathlib.Logic.Function.Basic

/-!
# The singly linked list of lab1

`linked_list.c` on a memory of nodes. An address is a `Nat` and `NULL` is `none`; a `node_t`
(declared in `linked_list.h`, not among the sources) keeps the `id` and the `next` pointer the
list functions read, and the list `*h` is a head pointer. `name` and `msg`, which only
`print_list` reads, are left out.

The loops follow `next` pointers, so they end only on a list that reaches `NULL`. Each one runs
on a `fuel` bound, one unit per node it visits, and gives `none` when the bound runs out before
the loop ends. `Chain` names the addresses of a list that does reach `NULL`: such a list is
finite, and acyclic. The `int` counter of `list_size` is a `Nat`: it counts without wrapping.

* `Chain.unique`, `Chain.nodup`: a head pointer has one list, of distinct addresses.
* `Chain.frame`, `Chain.bypass`: the list after writes to `next` fields off it, and after its
  node `r` is unlinked by a write to its predecessor.
-/

namespace Labs.LinkedList

/-- A `node_t`: its `id`, and its `next` pointer, `none` being `NULL`. -/
structure Node where
  id : Int
  next : Option Nat
  deriving DecidableEq

/-- The memory of a list: the head pointer `*h`, and the node at each address. -/
structure Mem where
  head : Option Nat
  heap : Nat → Node

/-- `a->next = q`. -/
def setNext (heap : Nat → Node) (a : Nat) (q : Option Nat) : Nat → Node :=
  Function.update heap a { heap a with next := q }

@[simp] theorem setNext_id (heap : Nat → Node) (a : Nat) (q : Option Nat) (b : Nat) :
    (setNext heap a q b).id = (heap b).id := by
  unfold setNext; rcases eq_or_ne b a with rfl | h <;> simp [*]

@[simp] theorem setNext_next (heap : Nat → Node) (a : Nat) (q : Option Nat) (b : Nat) :
    (setNext heap a q b).next = if b = a then q else (heap b).next := by
  unfold setNext; rcases eq_or_ne b a with rfl | h <;> simp [*]

/-- The second of two writes to one `next` field is the one that stays. -/
theorem setNext_setNext_self (heap : Nat → Node) (a : Nat) (q q' : Option Nat) :
    setNext (setNext heap a q) a q' = setNext heap a q' := by
  unfold setNext; rw [Function.update_same, Function.update_idem]

/-! ## The functions of `linked_list.c` -/

/-- `list_init`: `*h = NULL`. -/
def listInit (m : Mem) : Mem := { m with head := none }

/-- `list_empty`: `*h == NULL`. -/
def listEmpty (m : Mem) : Bool := m.head.isNone

/-- `list_insert(h, n)`: a `NULL` node is ignored; otherwise `n->next = *h; *h = n`. -/
def listInsert (m : Mem) : Option Nat → Mem
  | none => m
  | some a => ⟨some a, setNext m.heap a m.head⟩

/-- The loop of `list_size` from `p`, with `r` nodes counted so far. -/
def sizeLoop (heap : Nat → Node) : Nat → Option Nat → Nat → Option Nat
  | _, none, r => some r
  | 0, some _, _ => none
  | fuel + 1, some a, r => sizeLoop heap fuel (heap a).next (r + 1)

/-- `list_size`. -/
def listSize (fuel : Nat) (m : Mem) : Option Nat := sizeLoop m.heap fuel m.head 0

/-- The loop of `list_find` from `p`: the first node with the id, `NULL` at the end. -/
def findLoop (heap : Nat → Node) (id : Int) : Nat → Option Nat → Option (Option Nat)
  | _, none => some none
  | 0, some _ => none
  | fuel + 1, some a =>
    if (heap a).id = id then some (some a) else findLoop heap id fuel (heap a).next

/-- `list_find`. -/
def listFind (fuel : Nat) (m : Mem) (id : Int) : Option (Option Nat) :=
  findLoop m.heap id fuel m.head

/-- The loop of `list_find_before` from `p`: the first node whose successor has the id,
`NULL` when the list ends first. -/
def findBeforeLoop (heap : Nat → Node) (id : Int) : Nat → Option Nat → Option (Option Nat)
  | _, none => some none
  | 0, some _ => none
  | fuel + 1, some a =>
    match (heap a).next with
    | none => some none
    | some b => if (heap b).id = id then some (some a) else findBeforeLoop heap id fuel (some b)

/-- `list_find_before`. -/
def listFindBefore (fuel : Nat) (m : Mem) (id : Int) : Option (Option Nat) :=
  findBeforeLoop m.heap id fuel m.head

/-- The end of `list_delete`, from `p = list_find_before(h, id)`: when `p && p->next`, unlink
`r = p->next` (`p->next = r->next; r->next = NULL`) and return it, else return `NULL`. -/
def unlinkAfter (m : Mem) : Option Nat → Mem × Option Nat
  | some p =>
    match (m.heap p).next with
    | some r => (⟨m.head, setNext (setNext m.heap p (m.heap r).next) r none⟩, some r)
    | none => (m, none)
  | none => (m, none)

/-- `list_delete(h, id)`: the memory after it, and the node it returns, `NULL` being `none`.
A head with the id is unlinked at once (`*h = (*h)->next; r->next = NULL`); otherwise the
call goes through `list_find_before`, and is `none` when that loop does not end within `fuel`
nodes. -/
def listDelete (fuel : Nat) (m : Mem) (id : Int) : Option (Mem × Option Nat) :=
  match m.head with
  | some r =>
    if (m.heap r).id = id then some (⟨(m.heap r).next, setNext m.heap r none⟩, some r)
    else (listFindBefore fuel m id).map (unlinkAfter m)
  | none => (listFindBefore fuel m id).map (unlinkAfter m)

/-! ## Lists that reach `NULL` -/

/-- From `p`, following `next`, the list visits the addresses `ps` in order and then reaches
`NULL`. -/
inductive Chain (heap : Nat → Node) : Option Nat → List Nat → Prop
  | null : Chain heap none []
  | node {a : Nat} {ps : List Nat} : Chain heap (heap a).next ps → Chain heap (some a) (a :: ps)

variable {heap heap' : Nat → Node} {p : Option Nat} {ps qs : List Nat}

theorem Chain.cons_inv {a : Nat} (c : Chain heap p (a :: ps)) :
    p = some a ∧ Chain heap (heap a).next ps := by
  cases c; exact ⟨rfl, ‹_›⟩

/-- The head pointer of a list that reaches `NULL` is its first address. -/
theorem Chain.head_eq (c : Chain heap p ps) : p = ps.head? := by cases c <;> rfl

theorem Chain.drop_prefix {l₁ : List Nat} (c : Chain heap p (l₁ ++ qs)) : ∃ q, Chain heap q qs := by
  induction l₁ generalizing p with
  | nil => exact ⟨p, c⟩
  | cons a l₁ ih => exact ih c.cons_inv.2

theorem Chain.unique (c : Chain heap p ps) (d : Chain heap p qs) : ps = qs := by
  induction c generalizing qs with
  | null => cases d; rfl
  | node _ ih => cases d with | node d => rw [ih d]

/-- The list from a node on it is the rest of the list from that node. -/
theorem Chain.from_mem (c : Chain heap p ps) {a : Nat} (mem : a ∈ ps) :
    ∃ l₁ l₂, ps = l₁ ++ a :: l₂ ∧ Chain heap (some a) (a :: l₂) := by
  induction c with
  | null => cases mem
  | @node b ps c ih =>
    rcases List.mem_cons.mp mem with rfl | mem
    · exact ⟨[], ps, rfl, .node c⟩
    · obtain ⟨l₁, l₂, rfl, d⟩ := ih mem
      exact ⟨b :: l₁, l₂, rfl, d⟩

/-- **A list that reaches `NULL` has distinct addresses.** A node met twice would make the
list from it equal to a strictly shorter one. -/
theorem Chain.nodup (c : Chain heap p ps) : ps.Nodup := by
  induction c with
  | null => exact .nil
  | @node a ps c ih =>
    refine List.nodup_cons.mpr ⟨fun mem => ?_, ih⟩
    obtain ⟨l₁, l₂, rfl, d⟩ := c.from_mem mem
    have same := (Chain.node c).unique d
    simp only [List.cons.injEq, true_and] at same
    have := congrArg List.length same
    simp only [List.length_append, List.length_cons] at this
    omega

/-- Writes to nodes off the list, or that keep their `next`, leave the list as it is. -/
theorem Chain.frame (c : Chain heap p ps) (same : ∀ a ∈ ps, (heap' a).next = (heap a).next) :
    Chain heap' p ps := by
  induction c with
  | null => exact .null
  | @node a ps _ ih =>
    refine .node ?_
    rw [same a (List.mem_cons_self a ps)]
    exact ih fun b mem => same b (List.mem_cons_of_mem a mem)

/-- Two heaps that give every node but `a` the same `next`: the list from `p` in the second
still meets `a` when the list from `p` in the first does. -/
theorem Chain.mem_of_agree (c : Chain heap p ps) (d : Chain heap' p qs) {a : Nat} (mem : a ∈ ps)
    (agree : ∀ b, b ≠ a → (heap' b).next = (heap b).next) : a ∈ qs := by
  induction c generalizing qs with
  | null => cases mem
  | @node b ps _ ih =>
    obtain ⟨qs, rfl⟩ : ∃ rest, qs = b :: rest := by cases d; exact ⟨_, rfl⟩
    by_cases e : a = b
    · exact e ▸ List.mem_cons_self a qs
    · have rest := d.cons_inv.2
      rw [agree b (Ne.symm e)] at rest
      exact List.mem_cons_of_mem b (ih rest (List.mem_of_ne_of_mem e mem))

/-- **Unlinking a node.** Once the predecessor `x` of the node `r` points where `r` did, and no
other node of the list changes its `next`, the list skips `r` and keeps the rest in order. -/
theorem Chain.bypass {l₁ l₂ : List Nat} {x r : Nat} (c : Chain heap p (l₁ ++ x :: r :: l₂))
    (same : ∀ a ∈ l₁ ++ l₂, (heap' a).next = (heap a).next)
    (skip : (heap' x).next = (heap r).next) : Chain heap' p (l₁ ++ x :: l₂) := by
  induction l₁ generalizing p with
  | nil =>
    obtain ⟨rfl, atR⟩ := c.cons_inv
    obtain ⟨-, rest⟩ := atR.cons_inv
    exact .node (by rw [skip]; exact rest.frame same)
  | cons a l₁ ih =>
    obtain ⟨rfl, rest⟩ := c.cons_inv
    refine .node ?_
    rw [same a (List.mem_cons_self a _)]
    exact ih rest fun b mem => same b (List.mem_cons_of_mem a mem)

end Labs.LinkedList

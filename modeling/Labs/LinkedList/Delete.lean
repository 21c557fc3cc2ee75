import Mathlib.Data.List.Nodup
import Labs.LinkedList.Memory

/-!
# `list_delete` removes the first node with the id

On a list that reaches `NULL`, with fuel for its length, each loop of `linked_list.c` computes
a function of the list's addresses: `list_size` its length, `list_find` `List.find?`, and
`list_find_before` the node before the first node past the head with the id (`before`).
`list_delete` then takes out of the list exactly the node `list_find` returns: the head when it
has the id, else the successor of the node `list_find_before` returns.

* `sizeLoop_chain`, `findLoop_chain`, `findBeforeLoop_chain`: the loops, with enough fuel.
* `listDelete_absent`, `listDelete_found`: the two outcomes of `list_delete`.
* `list_delete_first`: `list_delete` against `List.find?` and `List.eraseP`, and the sizes.
* `list_insert_front`: `list_insert` of a node off the list, undone by `list_delete`; of a node
  on it, a cycle.
-/

namespace Labs.LinkedList

/-- The test `p->id == id` on the node at `a`. -/
def hasId (heap : Nat → Node) (id : Int) (a : Nat) : Bool := (heap a).id == id

/-- On a list of addresses, the one before the first address past the head whose node passes
`P`: what the loop of `list_find_before` looks for. -/
def before (P : Nat → Bool) : List Nat → Option Nat
  | a :: b :: rest => if P b then some a else before P (b :: rest)
  | _ => none

variable {heap : Nat → Node} {id : Int} {p : Option Nat} {ps : List Nat} {fuel : Nat}

/-! ## The loops -/

/-- Fuel for a list with a node is a unit for the node and fuel for the rest. -/
theorem fuel_of_cons {a : Nat} : (a :: ps).length ≤ fuel → ∃ f, fuel = f + 1 ∧ ps.length ≤ f := by
  cases fuel with
  | zero => exact fun h => absurd h (Nat.not_succ_le_zero _)
  | succ f => exact fun h => ⟨f, rfl, Nat.le_of_succ_le_succ h⟩

theorem sizeLoop_chain (c : Chain heap p ps) (enough : ps.length ≤ fuel) (r : Nat) :
    sizeLoop heap fuel p r = some (r + ps.length) := by
  induction c generalizing fuel r with
  | null => cases fuel <;> rfl
  | @node a ps _ ih =>
    obtain ⟨fuel, rfl, fits⟩ := fuel_of_cons enough
    rw [sizeLoop, ih fits, List.length_cons, Nat.add_right_comm, Nat.add_assoc]

theorem findLoop_chain (c : Chain heap p ps) (enough : ps.length ≤ fuel) :
    findLoop heap id fuel p = some (ps.find? (hasId heap id)) := by
  induction c generalizing fuel with
  | null => cases fuel <;> rfl
  | @node a ps _ ih =>
    obtain ⟨fuel, rfl, fits⟩ := fuel_of_cons enough
    by_cases h : (heap a).id = id
    · simp [findLoop, hasId, h]
    · simp [findLoop, hasId, h, ih fits]

theorem findBeforeLoop_chain (c : Chain heap p ps) (enough : ps.length ≤ fuel) :
    findBeforeLoop heap id fuel p = some (before (hasId heap id) ps) := by
  induction c generalizing fuel with
  | null => cases fuel <;> rfl
  | @node a ps c ih =>
    obtain ⟨fuel, rfl, fits⟩ := fuel_of_cons enough
    cases ps with
    | nil => simp [findBeforeLoop, c.head_eq, before]
    | cons b rest =>
      have next := c.cons_inv.1
      by_cases h : (heap b).id = id
      · simp [findBeforeLoop, next, before, hasId, h]
      · simp only [findBeforeLoop, next, before, hasId, h, beq_iff_eq, ↓reduceIte,
          Bool.false_eq_true]
        rw [← next]
        exact ih fits

/-! ## The node before the first match -/

theorem before_of_absent {P : Nat → Bool} {l : List Nat} (absent : ∀ b ∈ l, P b = false) :
    before P l = none := by
  induction l with
  | nil => rfl
  | cons a l ih =>
    cases l with
    | nil => rfl
    | cons b l =>
      simp only [before, absent b (by simp), Bool.false_eq_true, ↓reduceIte]
      exact ih fun c mem => absent c (List.mem_cons_of_mem a mem)

theorem before_append {P : Nat → Bool} {l l₂ : List Nat} {x r : Nat}
    (skip : ∀ b ∈ l, P b = false) (hx : P x = false) (hr : P r = true) :
    before P (l ++ x :: r :: l₂) = some x := by
  induction l with
  | nil => simp [before, hr]
  | cons a l ih =>
    cases l with
    | nil => simp [before, hx, hr]
    | cons b l =>
      simp only [List.cons_append, before, skip b (by simp), Bool.false_eq_true, ↓reduceIte]
      exact ih fun c mem => skip c (List.mem_cons_of_mem a mem)

/-! ## The two outcomes of `list_delete` -/

variable {m : Mem}

theorem listSize_chain (chain : Chain m.heap m.head ps) (enough : ps.length ≤ fuel) :
    listSize fuel m = some ps.length := by
  rw [listSize, sizeLoop_chain chain enough, Nat.zero_add]

/-- A head without the id sends `list_delete` to `list_find_before`. -/
theorem listDelete_of_head (chain : Chain m.heap m.head ps)
    (first : ∀ a ∈ ps.head?, hasId m.heap id a = false) :
    listDelete fuel m id = (listFindBefore fuel m id).map (unlinkAfter m) := by
  rw [listDelete, chain.head_eq]
  cases ps with
  | nil => rfl
  | cons a rest =>
    have : (m.heap a).id ≠ id := by simpa [hasId] using first a rfl
    simp only [List.head?_cons, this, ↓reduceIte]

/-- With no node of the id, `list_delete` returns `NULL` and changes nothing. -/
theorem listDelete_absent (chain : Chain m.heap m.head ps) (enough : ps.length ≤ fuel)
    (absent : ∀ a ∈ ps, hasId m.heap id a = false) : listDelete fuel m id = some (m, none) := by
  rw [listDelete_of_head chain fun a mem => absent a (List.mem_of_mem_head? mem), listFindBefore,
    findBeforeLoop_chain chain enough, before_of_absent absent]
  rfl

/-- With a node of the id, `list_delete` unlinks the first one, `r`, and returns it: the list
goes on without `r`, no `id` changes, and `r->next` is `NULL`. The head is unlinked by moving
`*h`; any other node by its predecessor `x`, which `list_find_before` finds. -/
theorem listDelete_found {l₁ l₂ : List Nat} {r : Nat}
    (chain : Chain m.heap m.head (l₁ ++ r :: l₂)) (enough : (l₁ ++ r :: l₂).length ≤ fuel)
    (skip : ∀ a ∈ l₁, hasId m.heap id a = false) (found : hasId m.heap id r = true) :
    ∃ m', listDelete fuel m id = some (m', some r) ∧ Chain m'.heap m'.head (l₁ ++ l₂) ∧
      (∀ a, (m'.heap a).id = (m.heap a).id) ∧ (m'.heap r).next = none := by
  have nodup := chain.nodup
  rcases l₁.eq_nil_or_concat with rfl | ⟨l₀, x, rfl⟩
  case inl =>
    obtain ⟨head, rest⟩ := chain.cons_inv
    have hit : (m.heap r).id = id := beq_iff_eq.mp found
    refine ⟨⟨(m.heap r).next, setNext m.heap r none⟩, by simp [listDelete, head, hit],
      rest.frame fun a mem => ?_, by simp, by simp⟩
    have : a ≠ r := fun e => (List.nodup_cons.mp nodup).1 (e ▸ mem)
    simp [this]
  case inr =>
    have skip₀ : ∀ a ∈ l₀, hasId m.heap id a = false := fun a mem => skip a (by simp [mem])
    have hx : hasId m.heap id x = false := skip x (by simp)
    simp only [List.concat_eq_append, List.append_assoc, List.singleton_append] at *
    obtain ⟨x_out, nodup⟩ := List.nodup_cons.mp (List.nodup_middle.mp nodup)
    obtain ⟨r_out, -⟩ := List.nodup_cons.mp (List.nodup_middle.mp nodup)
    have x_ne_r : x ≠ r := by rintro rfl; simp at x_out
    have next : (m.heap x).next = some r := by
      obtain ⟨q, atX⟩ := chain.drop_prefix
      exact atX.cons_inv.2.cons_inv.1
    have first : ∀ a ∈ (l₀ ++ x :: r :: l₂).head?, hasId m.heap id a = false := by
      intro a mem
      cases l₀ with
      | nil => obtain rfl := Option.some_inj.mp mem; exact hx
      | cons b l₀ => obtain rfl := Option.some_inj.mp mem; exact skip₀ b (List.mem_cons_self b l₀)
    have before_x : listFindBefore fuel m id = some (some x) := by
      rw [listFindBefore, findBeforeLoop_chain chain enough, before_append skip₀ hx found]
    refine ⟨⟨m.head, setNext (setNext m.heap x (m.heap r).next) r none⟩, ?_,
      chain.bypass (fun a mem => ?_) (by simp [x_ne_r]), by simp, by simp⟩
    · rw [listDelete_of_head chain first, before_x]
      simp [unlinkAfter, next]
    · have ne_x : a ≠ x := fun e =>
        x_out (e ▸ ((List.sublist_cons_self r l₂).append_left l₀).subset mem)
      have ne_r : a ≠ r := fun e => r_out (e ▸ mem)
      simp [ne_x, ne_r]

/-! ## `list_delete` against the list of addresses -/

/-- **`list_delete` removes the first node with the id.** On a list that reaches `NULL`, with
fuel for its length, `list_delete(h, id)` returns the node `list_find(h, id)` returns: the
first node with the id, or `NULL`. The list it leaves is the old one without that node, the
other nodes in their order; no `id` changes; the node returned has a `NULL` next pointer; a
`NULL` result leaves the memory as it was; and `list_size` falls by one exactly when a node is
returned. -/
theorem list_delete_first {m : Mem} {ps : List Nat} (chain : Chain m.heap m.head ps) (id : Int)
    {fuel : Nat} (enough : ps.length ≤ fuel) :
    ∃ m' r k, listDelete fuel m id = some (m', r) ∧ listFind fuel m id = some r ∧
      r = ps.find? (hasId m.heap id) ∧
      Chain m'.heap m'.head (ps.eraseP (hasId m.heap id)) ∧
      (∀ a, (m'.heap a).id = (m.heap a).id) ∧
      (∀ a, r = some a → (m'.heap a).next = none) ∧
      (r = none → m' = m) ∧
      listSize fuel m' = some k ∧ listSize fuel m = some (k + if r.isSome then 1 else 0) := by
  have find : listFind fuel m id = some (ps.find? (hasId m.heap id)) := findLoop_chain chain enough
  by_cases any : ∃ a ∈ ps, hasId m.heap id a = true
  · obtain ⟨a, mem, hit⟩ := any
    obtain ⟨r, l₁, l₂, skip, found, rfl, erased⟩ := List.exists_of_eraseP mem hit
    have skip : ∀ b ∈ l₁, hasId m.heap id b = false := fun b mem => by simpa using skip b mem
    obtain ⟨m', del, chain', ids, detached⟩ := listDelete_found chain enough skip found
    have none₁ : l₁.find? (hasId m.heap id) = none :=
      List.find?_eq_none.mpr fun b mem => by simp [skip b mem]
    have first : (l₁ ++ r :: l₂).find? (hasId m.heap id) = some r := by
      rw [List.find?_append, none₁, List.find?_cons_of_pos _ found]; rfl
    rw [erased]
    refine ⟨m', some r, (l₁ ++ l₂).length, del, first ▸ find, first.symm, chain', ids,
      fun a e => Option.some_inj.mp e ▸ detached, nofun, listSize_chain chain' ?_, ?_⟩
    · simp at enough ⊢; omega
    · rw [listSize_chain chain enough]; simp; omega
  · have absent : ∀ a ∈ ps, hasId m.heap id a = false := fun a mem =>
      Bool.eq_false_iff.mpr fun hit => any ⟨a, mem, hit⟩
    have miss : ps.find? (hasId m.heap id) = none :=
      List.find?_eq_none.mpr fun a mem => by simp [absent a mem]
    refine ⟨m, none, ps.length, listDelete_absent chain enough absent, miss ▸ find, miss.symm,
      ?_, fun _ => rfl, nofun, fun _ => rfl, listSize_chain chain enough, listSize_chain chain enough⟩
    rwa [List.eraseP_of_forall_not fun a mem => by simp [absent a mem]]

/-- Nodes `0`, `1`, `2` with ids `5`, `7`, `7`, linked in that order from the head. -/
def sampleMem : Mem where
  head := some 0
  heap
    | 0 => ⟨5, some 1⟩
    | 1 => ⟨7, some 2⟩
    | _ => ⟨7, none⟩

/-- Deleting `7` from the list `5, 7, 7` unlinks the first `7`, at address `1`, and leaves
`5, 7`. -/
theorem sampleMem_delete_first_seven :
    Chain sampleMem.heap sampleMem.head [0, 1, 2] ∧
      ∃ m', listDelete 3 sampleMem 7 = some (m', some 1) ∧ Chain m'.heap m'.head [0, 2] ∧
        (m'.heap 1).next = none ∧ listSize 3 m' = some 2 := by
  have chain : Chain sampleMem.heap sampleMem.head [0, 1, 2] := .node (.node (.node .null))
  obtain ⟨m', r, k, del, -, found, chain', -, detached, -, size', size⟩ :=
    list_delete_first chain 7 (le_refl 3)
  obtain rfl : r = some 1 := found
  obtain rfl : k = 2 := by
    rw [show listSize 3 sampleMem = some 3 from rfl] at size
    simp at size; omega
  exact ⟨chain, m', del, chain', detached 1 rfl, size'⟩

/-! ## `list_insert`, then `list_delete` -/

/-- **`list_insert` puts a node in front.** A node off the list goes in front of it, and the
list still reaches `NULL`; deleting the node's id at once unlinks it again, and the list from
`*h` is the old one. A node already on the list closes a cycle: the list from `*h` no longer
reaches `NULL`. -/
theorem list_insert_front {m : Mem} {ps : List Nat} (chain : Chain m.heap m.head ps)
    (a fuel : Nat) :
    (a ∉ ps →
      Chain (listInsert m (some a)).heap (listInsert m (some a)).head (a :: ps) ∧
        listDelete fuel (listInsert m (some a)) (m.heap a).id =
          some (⟨m.head, setNext m.heap a none⟩, some a) ∧
        Chain (setNext m.heap a none) m.head ps) ∧
    (a ∈ ps → ∀ qs, ¬Chain (listInsert m (some a)).heap (listInsert m (some a)).head qs) := by
  have agree : ∀ q b, b ≠ a → (setNext m.heap a q b).next = (m.heap b).next :=
    fun q b ne => by simp [ne]
  refine ⟨fun fresh => ?_, fun mem qs cyc => ?_⟩
  · have off : ∀ q, ∀ b ∈ ps, (setNext m.heap a q b).next = (m.heap b).next :=
      fun q b onList => agree q b (by rintro rfl; exact fresh onList)
    refine ⟨.node ?_, ?_, chain.frame (off none)⟩
    · simpa only [listInsert, setNext_next, ↓reduceIte] using chain.frame (off m.head)
    · simp [listDelete, listInsert, setNext_setNext_self]
  · obtain ⟨qs, rfl⟩ : ∃ rest, qs = a :: rest := by cases cyc; exact ⟨_, rfl⟩
    have back := cyc.cons_inv.2
    simp only [listInsert, setNext_next, ↓reduceIte] at back
    exact (List.nodup_cons.mp cyc.nodup).1 (chain.mem_of_agree back mem (agree m.head))

/-- Node `3`, off the list, goes in front and is deleted again by its id `7` before the `7`s
behind it, with no fuel at all; node `1`, on the list, closes a cycle. -/
theorem sampleMem_insert_front :
    Chain sampleMem.heap sampleMem.head [0, 1, 2] ∧
      listDelete 0 (listInsert sampleMem (some 3)) 7 =
        some (⟨some 0, setNext sampleMem.heap 3 none⟩, some 3) ∧
      ∀ qs, ¬Chain (listInsert sampleMem (some 1)).heap (listInsert sampleMem (some 1)).head qs :=
  have chain : Chain sampleMem.heap sampleMem.head [0, 1, 2] := .node (.node (.node .null))
  ⟨chain, ((list_insert_front chain 3 0).1 (by decide)).2.1,
    (list_insert_front chain 1 0).2 (by decide)⟩

end Labs.LinkedList

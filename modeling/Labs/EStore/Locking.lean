import Labs.EStore.Threads
import Labs.EStore.BuyMany
import Mathlib.Data.List.Infix

/-!
# Which mutexes a thread holds

A thread's ledger (`Pc.holds`) is the set of mutexes its own code has locked and not yet
unlocked in the current call, read off its program point. The lock discipline of the store is
a statement about each statement of its code:

* `next_keeps`: every statement keeps the ledger (`Keeps`): a lock takes a mutex the thread
  does not hold, an unlock or a wait gives back one it holds, and a statement on the store
  leaves the ledger alone. The one exception is the setters' `smutex_unlock(&mtx)` after their
  mode branch (`SetPc.extraUnlock`), at which the thread holds nothing.
* `Pc.WellFormed`, `next_wellFormed`: the locals of an order (strictly ascending ids, a locked
  prefix of them) are kept by the thread's own statements.
-/

namespace Labs.EStore

variable {R : Type} {n : Nat}

/-- The mutexes held in `buyItem`: `mtx`, from its lock to its unlock, but not asleep. -/
def BuyPc.holds : BuyPc → Mutex n → Bool
  | .lock | .asleep | .relock => fun _ => false
  | _ => fun m => m = .mtx

/-- The mutexes held in a one-slot call on slot `i`. -/
def SlotPc.holds (fine : Bool) (i : Fin n) : SlotPc → Mutex n → Bool
  | .lock => fun _ => false
  | _ => fun m => m = slotMutex fine i

/-- The mutexes held in `getItemQuantity` on slot `i`. -/
def GetPc.holds (fine : Bool) (i : Fin n) : GetPc → Mutex n → Bool
  | .lock => fun _ => false
  | _ => fun m => m = slotMutex fine i

/-- The mutexes held in a setter. -/
def SetPc.holds (fine : Bool) : SetPc n → Mutex n → Bool
  | .body | .unlock _ => fun m => m = setterMutex fine
  | .wakeBroadcast i | .wakeUnlock i => fun m => m = .itemMtx i
  | _ => fun _ => false

/-- The mutexes held in `buyManyItems` on the ids `ids`. -/
def ManyPc.holds (ids : List (Fin n)) : ManyPc R n → Mutex n → Bool
  | .lockGlobal => fun _ => false
  | .snapshot | .unlockGlobal _ _ => fun m => m = .globalMtx
  | .lock _ _ held _ | .unlock held => fun m => m ∈ held.map .itemMtx
  | .check _ _ _ _ | .commit _ => fun m => m ∈ ids.map .itemMtx

/-- The mutexes a thread at `p` holds by its own code, in mode `fine`. -/
def Pc.holds (fine : Bool) : Pc R n → Mutex n → Bool
  | .idle => fun _ => false
  | .buyItem _ _ pc => pc.holds
  | .slot i _ pc => pc.holds fine i
  | .getItemQuantity i pc => pc.holds fine i
  | .setter _ pc => pc.holds fine
  | .buyManyItems ids _ pc => pc.holds ids

/-- Statement `a`, run at `p`, keeps the thread's ledger. -/
def Keeps (fine : Bool) (p : Pc R n) : Act R n → Prop
  | .lock m p' => p.holds fine m = false ∧ ∀ m', p'.holds fine m' = (p.holds fine m' || m' = m)
  | .unlock m p' | .wait m p' =>
    p.holds fine m = true ∧ ∀ m', p'.holds fine m' = (p.holds fine m' && m' ≠ m)
  | .run _ _ p' => ∀ m', p'.holds fine m' = p.holds fine m'

/-- The locals of an order on the ids `ids`: the lock loop's `held` (last first) followed by
its `todo` are the ids, the check and commit loops work on a suffix of them, and the unlock
loop goes down strictly descending ids. -/
def ManyPc.WellFormed (ids : List (Fin n)) : ManyPc R n → Prop
  | .lock _ _ held todo => held.reverse ++ todo = ids
  | .check _ _ todo _ | .commit todo => todo <:+ ids
  | .unlock held => held.Pairwise (· > ·)
  | _ => True

/-- The locals of a thread are well formed: an order's ids are strictly ascending. -/
def Pc.WellFormed : Pc R n → Prop
  | .buyManyItems ids _ pc => ids.Pairwise (· < ·) ∧ pc.WellFormed ids
  | _ => True

theorem entry_wellFormed (c : Call R) : (c.entry n).WellFormed := by
  cases c with
  | buyManyItems itemIds b =>
    simp only [Call.entry]
    split
    · trivial
    · exact ⟨orderIds_sorted itemIds, trivial⟩
  | buyItem | slot | getItemQuantity => simp only [Call.entry]; split <;> trivial
  | setter => trivial

variable [Price R] {s : EStore R n} {a : Act R n}

theorem ManyPc.next_wellFormed {ids : List (Fin n)} {b : R} {pc : ManyPc R n}
    (h : pc.next s ids b = some a) (sorted : ids.Pairwise (· < ·)) (wf : pc.WellFormed ids) :
    a.next.WellFormed := by
  cases pc with
  | lockGlobal | snapshot | unlockGlobal => cases h; exact ⟨sorted, by simp [WellFormed]⟩
  | lock sh d held todo =>
    cases todo with
    | nil => cases h; exact ⟨sorted, List.suffix_refl ids⟩
    | cons i todo => cases h; exact ⟨sorted, by simpa [WellFormed] using wf⟩
  | check sh d todo total =>
    cases todo with
    | nil => cases h; exact ⟨sorted, List.suffix_refl ids⟩
    | cons i todo =>
      simp only [ManyPc.next] at h
      split at h <;> cases h
      · exact ⟨sorted, List.pairwise_reverse.mpr sorted⟩
      · exact ⟨sorted, (List.suffix_cons i todo).trans wf⟩
  | commit todo =>
    cases todo with
    | nil => cases h; exact ⟨sorted, List.pairwise_reverse.mpr sorted⟩
    | cons i todo => cases h; exact ⟨sorted, (List.suffix_cons i todo).trans wf⟩
  | unlock held =>
    cases held with
    | nil => cases h; trivial
    | cons i held => cases h; exact ⟨sorted, (List.pairwise_cons.mp wf).2⟩

/-- A thread's own statements keep its locals well formed. -/
theorem next_wellFormed {p : Pc R n} (h : p.next s = some a) (wf : p.WellFormed) :
    a.next.WellFormed := by
  cases p with
  | buyManyItems ids b pc => exact ManyPc.next_wellFormed h wf.1 wf.2
  | idle => cases h
  | buyItem i b pc => cases pc <;> simp only [Pc.next, BuyPc.next] at h <;> cases h <;> trivial
  | slot i op pc => cases pc <;> cases h <;> trivial
  | getItemQuantity i pc => cases pc <;> cases h <;> trivial
  | setter x pc =>
    cases pc <;> simp only [Pc.next, SetPc.next] at h <;> (try split at h) <;> cases h <;> trivial

variable {fine : Bool}

theorem BuyPc.next_keeps {i : Fin n} {b : R} {pc : BuyPc} (h : pc.next s i b = some a) :
    Keeps fine (.buyItem i b pc) a := by
  cases pc <;> simp only [BuyPc.next] at h <;> cases h <;>
    simp only [Keeps, Pc.holds, BuyPc.holds] <;> (try split) <;> simp

theorem SlotPc.next_keeps {i : Fin n} {op : SlotOp R} {pc : SlotPc}
    (h : pc.next s i op = some a) : Keeps s.fineMode (.slot i op pc) a := by
  cases pc <;> cases h <;> simp [Keeps, Pc.holds, SlotPc.holds]

omit [Price R] in
theorem GetPc.next_keeps {i : Fin n} {pc : GetPc} (h : pc.next s i = some a) :
    Keeps s.fineMode (.getItemQuantity i pc) a := by
  cases pc <;> cases h <;> simp [Keeps, Pc.holds, GetPc.holds]

theorem SetPc.next_keeps {x : Setter R} {pc : SetPc n} (h : pc.next s x = some a)
    (extra : pc ≠ .extraUnlock) : Keeps s.fineMode (.setter x pc) a := by
  cases pc <;> simp only [SetPc.next] at h <;> (try split at h) <;> cases h <;>
    simp only [Keeps, Pc.holds, SetPc.holds] <;> simp_all

theorem ManyPc.next_keeps {ids : List (Fin n)} {b : R} {pc : ManyPc R n}
    (h : pc.next s ids b = some a) (sorted : ids.Pairwise (· < ·)) (wf : pc.WellFormed ids) :
    Keeps fine (.buyManyItems ids b pc) a := by
  cases pc with
  | lockGlobal | snapshot | unlockGlobal => cases h; simp [Keeps, Pc.holds, ManyPc.holds]
  | lock sh d held todo =>
    cases todo with
    | nil =>
      cases h
      simp only [WellFormed, List.append_nil] at wf
      simp [Keeps, Pc.holds, ManyPc.holds, ← wf]
    | cons i todo =>
      cases h
      have fresh : i ∉ held := fun mem => by
        rw [← wf, List.pairwise_append] at sorted
        exact lt_irrefl i (sorted.2.2 i (List.mem_reverse.mpr mem) i (List.mem_cons_self i todo))
      simp only [Keeps, Pc.holds, ManyPc.holds, List.map_cons, List.mem_cons, List.mem_map]
      refine ⟨by simpa using fresh, fun m => ?_⟩
      by_cases hm : m = .itemMtx i <;> simp [hm, or_comm]
  | check sh d todo total =>
    cases todo with
    | nil => cases h; simp [Keeps, Pc.holds, ManyPc.holds]
    | cons i todo =>
      simp only [ManyPc.next] at h
      split at h <;> cases h <;> simp [Keeps, Pc.holds, ManyPc.holds]
  | commit todo =>
    cases todo with
    | nil => cases h; simp [Keeps, Pc.holds, ManyPc.holds]
    | cons i todo => cases h; simp [Keeps, Pc.holds, ManyPc.holds]
  | unlock held =>
    cases held with
    | nil => cases h; simp [Keeps, Pc.holds, ManyPc.holds]
    | cons i held =>
      cases h
      have fresh : i ∉ held := fun mem => lt_irrefl i ((List.pairwise_cons.mp wf).1 i mem)
      simp only [Keeps, Pc.holds, ManyPc.holds, List.map_cons, List.mem_cons, List.mem_map]
      refine ⟨by simp, fun m => ?_⟩
      by_cases hm : m = .itemMtx i
      · subst hm; simpa using fresh
      · simp [hm]

/-- **The lock discipline, statement by statement.** Every statement of the store's code
keeps the ledger of the thread running it, except the setters' extra `smutex_unlock(&mtx)`. -/
theorem next_keeps {p : Pc R n} (h : p.next s = some a) (wf : p.WellFormed)
    (extra : ∀ x, p ≠ .setter x .extraUnlock) : Keeps s.fineMode p a := by
  cases p with
  | idle => cases h
  | buyItem i b pc => exact BuyPc.next_keeps h
  | slot i op pc => exact SlotPc.next_keeps h
  | getItemQuantity i pc => exact GetPc.next_keeps h
  | setter x pc => exact SetPc.next_keeps h (fun e => extra x (e ▸ rfl))
  | buyManyItems ids b pc => exact ManyPc.next_keeps h wf.1 wf.2

end Labs.EStore

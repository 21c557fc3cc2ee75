import Labs.EStore.Fine

/-!
# Fine mode: every run is a sequential run

A call takes effect at one statement: a one-slot call and a setter at their critical section,
`getItemQuantity` at its read, and `buyManyItems` at the end of its check loop, where it either
commits or aborts; a call whose arguments are out of range takes effect when it is made. The
ghost state of `Logged` records each thread's current call, the snapshot its last snapshot
statement read, the calls made, and, in the order they took effect, the calls that did so with
the snapshot they used and the value they return.

An order in its commit loop has taken effect but not yet written all its decrements; the store
with those decrements done is `World.settled`. The thread of such an order holds the item
mutexes of all its ids, so no other call reads or writes those slots meanwhile.

* `serializable`: in every reachable state, the logged calls run one after the other from the
  first store, each atomically and `buyManyItems` with its snapshot, return the values logged
  for them and leave the settled store; each thread's calls are logged in its own order, each
  once, all but a current one that has not taken effect yet; and what each thread holds agrees
  with its entry (`Logged.Agrees`): the snapshot it read, the value it returns.
* `commit_loop_shows_partial_order`: a reachable state in the middle of a commit loop, in which
  one id of an order is decremented and another not yet.
-/

namespace Labs.EStore

variable {R : Type} {n T : Nat}

/-! ## Where a call takes effect -/

/-- The decrements an order still owes the store: the ids left in its commit loop. -/
def Pc.owed : Pc R n → List (Fin n)
  | .buyManyItems _ _ (.commit todo) => todo
  | _ => []

/-- The thread is in a call that has not taken effect yet. -/
def Pc.pending : Pc R n → Bool
  | .idle => false
  | .buyItem _ _ _ => true
  | .slot _ _ .unlock => false
  | .slot _ _ _ => true
  | .getItemQuantity _ (.unlock _) => false
  | .getItemQuantity _ _ => true
  | .setter _ .lock | .setter _ .body => true
  | .setter _ _ => false
  | .buyManyItems _ _ (.commit _) | .buyManyItems _ _ (.unlock _) => false
  | .buyManyItems _ _ _ => true

/-- How many commit loops still owe slot `j` a decrement. -/
def World.owing (w : World R n T) (j : Fin n) : Nat :=
  (Finset.univ.filter fun t => j ∈ (w.threads t).owed).card

/-- The store as the calls that took effect leave it: every commit loop run to its end. -/
def World.settled (w : World R n T) : EStore R n :=
  { w.store with
    inventory := fun j =>
      { w.store.inventory j with quantity := (w.store.inventory j).quantity - w.owing j } }

/-- A thread at `p` is running the call `c`. -/
def Matches : Call R → Pc R n → Prop
  | _, .idle => True
  | .buyItem itemId b, .buyItem i b' _ => slot? n itemId = some i ∧ b' = b
  | .buyManyItems itemIds b, .buyManyItems ids b' _ => orderIds n itemIds = ids ∧ b' = b
  | .slot itemId op, .slot i op' _ => slot? n itemId = some i ∧ op' = op
  | .setter x, .setter x' _ => x' = x
  | .getItemQuantity itemId, .getItemQuantity i _ => slot? n itemId = some i
  | _, _ => False

/-! ## The call of each thread -/

variable {s : EStore R n} {p : Pc R n} {a : Act R n} {c : Call R}

theorem entry_owed (c : Call R) : (c.entry n).owed = [] := by
  cases c <;> simp only [Call.entry] <;> (try split) <;> rfl

theorem entry_matches (c : Call R) : Matches c (c.entry n) := by
  cases c with
  | buyItem itemId _ | slot itemId _ | getItemQuantity itemId =>
    simp only [Call.entry]; split <;> simp only [Matches, *, and_self]
  | buyManyItems => simp only [Call.entry]; split <;> simp only [Matches, and_self]
  | setter => rfl

/-! ## The settled store -/

variable {w w' : World R n T} {t : Fin T}

@[simp] theorem settled_inventory (j : Fin n) : w.settled.inventory j =
    { w.store.inventory j with quantity := (w.store.inventory j).quantity - w.owing j } := rfl

@[simp] theorem settled_shippingCost : w.settled.shippingCost = w.store.shippingCost := rfl

@[simp] theorem settled_storeDiscount : w.settled.storeDiscount = w.store.storeDiscount := rfl

@[simp] theorem settled_fineMode : w.settled.fineMode = w.store.fineMode := rfl

/-- Moving thread `t` to `q` changes the count of the loops owing `j` by what `t` owes. -/
theorem owing_update (q : Pc R n) (threads : w'.threads = Function.update w.threads t q) (j : Fin n) :
    w'.owing j + (if j ∈ (w.threads t).owed then 1 else 0) =
      w.owing j + (if j ∈ q.owed then 1 else 0) := by
  have split (f : Fin T → Pc R n) : (Finset.univ.filter fun u => j ∈ (f u).owed).card =
      (if j ∈ (f t).owed then 1 else 0) +
        ((Finset.univ.erase t).filter fun u => j ∈ (f u).owed).card := by
    rw [Finset.card_filter, Finset.card_filter, ← Finset.add_sum_erase _ _ (Finset.mem_univ t)]
  have rest : ((Finset.univ.erase t).filter fun u => j ∈ (w'.threads u).owed) =
      (Finset.univ.erase t).filter fun u => j ∈ (w.threads u).owed :=
    Finset.filter_congr fun u hu => by rw [threads, Function.update_noteq (Finset.ne_of_mem_erase hu)]
  unfold World.owing
  rw [split w'.threads, split w.threads, rest, threads, Function.update_same]
  omega

section Update

variable {q : Pc R n} (threads : w'.threads = Function.update w.threads t q)
include threads

/-- A statement that writes nothing and leaves what its thread owes leaves the settled store. -/
theorem settled_of_quiet (store : w'.store = w.store) (owed : q.owed = (w.threads t).owed) :
    w'.settled = w.settled := by
  have : w'.owing = w.owing := funext fun j => by
    have := owing_update q threads j
    rw [owed] at this
    omega
  ext j <;> simp [store, this]

/-- A decrement of the commit loop moves it from what the thread owes to the store. -/
theorem settled_of_decrement {i : Fin n} (store : w'.store = w.store.decrement i)
    (owed : (w.threads t).owed = i :: q.owed) (fresh : i ∉ q.owed) : w'.settled = w.settled := by
  ext j
  · have := owing_update q threads j
    rw [owed] at this
    by_cases hj : j = i
    · subst hj
      simp only [fresh, if_false, if_true, List.mem_cons, true_or] at this
      simp only [settled_inventory, store, decrement_inventory, ↓reduceIte, Item.mk.injEq,
        true_and, and_true]
      omega
    · simp_all
  all_goals simp [store]

/-- The end of a successful check loop: the thread now owes its order's decrements. -/
theorem settled_of_commit {ids : List (Fin n)} (store : w'.store = w.store)
    (before : (w.threads t).owed = []) (owed : q.owed = ids) (nodup : ids.Nodup) :
    w'.settled = w.settled.commit ids := by
  rw [commit_eq_decrementEach _ _ nodup]
  ext j
  · have := owing_update q threads j
    rw [before, owed] at this
    by_cases hj : j ∈ ids <;> simp_all [decrementEach]; omega
  all_goals simp [store, decrementEach]

/-- A one-slot critical section on a slot no loop owes. -/
theorem settled_of_setItem {i : Fin n} {it : Item R} (store : w'.store = w.store.setItem i it)
    (owed : q.owed = (w.threads t).owed) (clear : w.owing i = 0) :
    w'.settled = w.settled.setItem i it := by
  have same : w'.owing = w.owing := funext fun j => by
    have := owing_update q threads j
    rw [owed] at this
    omega
  ext j
  · by_cases hj : j = i
    · subst hj; simp [store, same, clear]
    · simp [store, same, hj]
  all_goals simp [store]

/-- A setter's critical section. -/
theorem settled_of_setter [Price R] {x : Setter R} (store : w'.store = (x.body w.store).1)
    (owed : q.owed = (w.threads t).owed) : w'.settled = (x.body w.settled).1 := by
  have same : w'.owing = w.owing := funext fun j => by
    have := owing_update q threads j
    rw [owed] at this
    omega
  cases x <;> ext <;> simp [store, same, Setter.body]

end Update

/-- The ids an order owes are locked by its thread. -/
theorem owed_held {j : Fin n} {fine : Bool} (owed : j ∈ p.owed) (wf : p.WellFormed) :
    p.holds fine (.itemMtx j) = true := by
  cases p with
  | buyManyItems ids b pc =>
    cases pc <;> simp only [Pc.owed, List.not_mem_nil] at owed
    simpa [Pc.holds, ManyPc.holds] using wf.2.subset owed
  | _ => simp [Pc.owed] at owed

/-- No loop owes a slot whose mutex a thread that owes it nothing holds. -/
theorem FineInv.owing_eq_zero (inv : FineInv w) {j : Fin n}
    (held : (w.threads t).holds true (.itemMtx j) = true) (clear : j ∉ (w.threads t).owed) :
    w.owing j = 0 := by
  simp only [World.owing, Finset.card_eq_zero, Finset.filter_eq_empty_iff, Finset.mem_univ,
    true_implies]
  intro u owed
  obtain rfl := inv.unique _ u t (owed_held owed (inv.wellFormed u)) held
  exact clear owed

theorem FineInv.settled_at (inv : FineInv w) {j : Fin n}
    (held : (w.threads t).holds true (.itemMtx j) = true) (clear : j ∉ (w.threads t).owed) :
    w.settled.inventory j = w.store.inventory j := by
  simp [inv.owing_eq_zero held clear]

variable [Price R]

/-- The snapshot a call taking effect at `p` uses, and the value it returns. -/
def Pc.effect (s : EStore R n) : Pc R n → (R × R) × Int
  | .getItemQuantity i _ => ((0, 0), s.quantityAt i)
  | .buyManyItems _ _ (.check sh d _ _) => ((sh, d), 0)
  | _ => ((0, 0), 0)

/-- The snapshot recorded for a thread after its statement at `p`: the snapshot statement of
`buyManyItems` reads the shipping cost and the store discount of `s`; any other statement keeps
`snap`. -/
def Pc.snapped (s : EStore R n) (snap : R × R) : Pc R n → R × R
  | .buyManyItems _ _ .snapshot => (s.shippingCost, s.storeDiscount)
  | _ => snap

/-- The check loop of an order has so far agreed with a check of all its ids on the store. -/
def CheckOk (s : EStore R n) : Pc R n → Prop
  | .buyManyItems ids b (.check sh d todo total) =>
    checkLoop s sh d b ids 0 = checkLoop s sh d b todo total
  | _ => True

/-! ## The history -/

/-- A call that took effect: its thread, the call, the snapshot it used and the value it
returns. -/
structure Entry (R : Type) (T : Nat) where
  thread : Fin T
  call : Call R
  snap : R × R
  result : Int

/-- The calls of a log run one after the other from `s`, each atomically; `none` when one of
them would return another value than the one logged. -/
def replay (s : EStore R n) : List (Entry R T) → Option (EStore R n)
  | [] => some s
  | e :: log => if e.result = e.call.result s then replay (e.call.apply s e.snap) log else none

/-- The world with its history: each thread's current call, the snapshot its last snapshot
statement read, the calls made, and the calls that took effect, in the order they did. -/
structure Logged (R : Type) (n T : Nat) where
  world : World R n T
  calls : Fin T → Call R
  snaps : Fin T → R × R
  made : List (Fin T × Call R)
  log : List (Entry R T)

/-- A fresh store with no history. -/
def Logged.init (s : EStore R n) : Logged R n T :=
  ⟨World.init s, fun _ => .getItemQuantity 0, fun _ => (0, 0), [], []⟩

/-- One step of the world, with its history: a call is recorded when it is made, and logged
when it takes effect. -/
def Logged.step (L : Logged R n T) (t : Fin T) (m : Move R) : Option (Logged R n T) :=
  (L.world.step t m).map fun w' =>
    match m with
    | .call c =>
      { L with
        world := w', calls := Function.update L.calls t c, made := L.made ++ [(t, c)],
        log := if !(w'.threads t).pending then L.log ++ [⟨t, c, (0, 0), 0⟩] else L.log }
    | _ =>
      { L with
        world := w'
        snaps := Function.update L.snaps t ((L.world.threads t).snapped L.world.store (L.snaps t))
        log := if (L.world.threads t).pending && !(w'.threads t).pending then
            L.log ++ [⟨t, L.calls t, ((L.world.threads t).effect L.world.store).1,
              ((L.world.threads t).effect L.world.store).2⟩]
          else L.log }

/-- The states with history the runs from a fresh store `s` reach. -/
inductive Logged.Reach (s : EStore R n) : Logged R n T → Prop
  | start : Logged.Reach s (Logged.init s)
  | step {L L' : Logged R n T} (t : Fin T) (m : Move R) :
      Logged.Reach s L → L.step t m = some L' → Logged.Reach s L'

/-- A run with history: the moves of a schedule, one after the other. -/
def Logged.exec (L : Logged R n T) : List (Fin T × Move R) → Option (Logged R n T)
  | [] => some L
  | (t, m) :: σ => (L.step t m).bind (·.exec σ)

theorem Logged.Reach.exec {s : EStore R n} {L L' : Logged R n T} (h : Logged.Reach s L)
    {σ : List (Fin T × Move R)} (run : L.exec σ = some L') : Logged.Reach s L' := by
  induction σ generalizing L with
  | nil => cases run; exact h
  | cons m σ ih =>
    obtain ⟨t, m⟩ := m
    obtain ⟨L₁, step, rest⟩ := Option.bind_eq_some.mp run
    exact ih (h.step t m step) rest

theorem Logged.step_world {L L' : Logged R n T} {t : Fin T} {m : Move R} (h : L.step t m = some L') :
    L.world.step t m = some L'.world := by
  obtain ⟨w', hw, rfl⟩ := Option.map_eq_some'.mp h
  cases m <;> exact hw

/-- The history is ghost state: the worlds of the runs with history are the reachable ones. -/
theorem reach_of_logged {s : EStore R n} {L : Logged R n T} (h : Logged.Reach s L) :
    Reach (World.init s) L.world := by
  induction h with
  | start => exact .start
  | step t m _ h ih => exact ih.step t m (Logged.step_world h)

/-! ## The call of each thread, step by step -/

/-- A thread's own statements keep it in the same call, or end it. -/
theorem Matches.next (hc : Matches c p) (h : p.next s = some a) : Matches c a.next := by
  cases p with
  | idle => cases h
  | buyItem i b pc =>
    cases c <;> simp only [Matches] at hc
    cases pc <;> cases h <;> first | exact hc | trivial
  | slot i op pc =>
    cases c <;> simp only [Matches] at hc
    cases pc <;> cases h <;> first | exact hc | trivial
  | getItemQuantity i pc =>
    cases c <;> simp only [Matches] at hc
    cases pc <;> cases h <;> first | exact hc | trivial
  | setter x pc =>
    cases c <;> simp only [Matches] at hc
    cases pc <;> simp only [Pc.next, SetPc.next] at h <;> (try split at h) <;> cases h <;>
      first | exact hc | trivial
  | buyManyItems ids b pc =>
    cases c <;> simp only [Matches] at hc
    cases pc with
    | check _ _ todo _ =>
      cases todo <;> simp only [Pc.next, ManyPc.next] at h <;> (try split at h) <;> cases h <;>
        exact hc
    | lock _ _ _ todo | commit todo | unlock todo =>
      cases todo <;> cases h <;> first | exact hc | trivial
    | _ => cases h; exact hc

/-! ## The slots a statement writes -/

/-- A statement writes only slots whose item mutex its thread holds, outside `buyItem`. -/
theorem next_write_frame {wr : Write R n} {b : Cond n → Bool} {p' : Pc R n} {j : Fin n}
    (h : p.next s = some (.run wr b p')) (wf : p.WellFormed)
    (noBuy : ∀ i b pc, p ≠ .buyItem i b pc) (free : p.holds true (.itemMtx j) = false) :
    (wr.apply s).inventory j = s.inventory j := by
  cases p with
  | idle => cases h
  | buyItem i b pc => exact absurd rfl (noBuy i b pc)
  | slot i op pc =>
    cases pc <;> cases h
    have ne : j ≠ i := by rintro rfl; simp [Pc.holds, SlotPc.holds, slotMutex] at free
    simp [Write.apply, ne]
  | getItemQuantity i pc => cases pc <;> cases h; rfl
  | setter x pc =>
    cases pc <;> simp only [Pc.next, SetPc.next] at h <;> (try split at h) <;> cases h <;>
      simp [Write.apply]
  | buyManyItems ids b pc =>
    cases pc with
    | check _ _ todo _ =>
      cases todo <;> simp only [Pc.next, ManyPc.next] at h <;> (try split at h) <;> cases h <;> rfl
    | commit todo =>
      cases todo with
      | nil => cases h; rfl
      | cons i todo =>
        cases h
        have ne : j ≠ i := by
          rintro rfl
          simp [owed_held (List.mem_cons_self j todo) wf] at free
        simp [Write.apply, ne]
    | lock _ _ _ todo | unlock todo => cases todo <;> cases h; rfl
    | _ => cases h <;> rfl

/-! ## The check loop -/

theorem checkLoop_congr {s' : EStore R n} {sh d b : R} {l : List (Fin n)}
    (same : ∀ j ∈ l, s'.inventory j = s.inventory j) (total : R) :
    checkLoop s' sh d b l total = checkLoop s sh d b l total := by
  induction l generalizing total with
  | nil => rfl
  | cons i l ih =>
    have hi : checkItem s' sh d b total i = checkItem s sh d b total i := by
      simp only [checkItem, same i (List.mem_cons_self i l)]
    simp only [checkLoop, hi]
    cases checkItem s sh d b total i with
    | none => rfl
    | some total' => exact ih (fun j hj => same j (List.mem_cons_of_mem i hj)) total'

theorem Call.apply_buyManyItems {itemIds : List Int} {ids : List (Fin n)} {b : R}
    (h : orderIds n itemIds = ids) (snap : R × R) :
    (Call.buyManyItems itemIds b).apply s snap = s.buyManyItemsAt ids b snap.1 snap.2 := by
  simp only [Call.apply, h]
  split
  · rename_i empty
    simp only [List.isEmpty_iff] at empty
    simp [empty, buyManyItemsAt, checkLoop]
  · rfl

/-- An order in its check loop holds the mutexes of its ids and owes nothing: the settled store
and the store agree on its ids. -/
theorem FineInv.checkLoop_settled (inv : FineInv w) {ids : List (Fin n)} {b sh d b' total : R}
    {todo : List (Fin n)} (at_check : w.threads t = .buyManyItems ids b (.check sh d todo total)) :
    checkLoop w.settled sh d b' ids 0 = checkLoop w.store sh d b' ids 0 :=
  checkLoop_congr (fun j hj => inv.settled_at (t := t)
    (by simp [at_check, Pc.holds, ManyPc.holds, hj]) (by simp [at_check, Pc.owed])) 0

/-- **The step lemma of the simulation.** In fine mode a statement of thread `t`, running the
call `c`, either leaves the settled store as it is, or is the one at which `c` takes effect:
then `c`, run atomically on the settled store with the snapshot the thread took, returns the
value the thread returns and leaves the new settled store. -/
theorem FineInv.settled_next (inv : FineInv w) (checked : CheckOk w.store (w.threads t))
    (hc : Matches c (w.threads t)) (h : w.step t .next = some w') :
    if (w.threads t).pending && !(w'.threads t).pending then
      c.result w.settled = ((w.threads t).effect w.store).2 ∧
        c.apply w.settled ((w.threads t).effect w.store).1 = w'.settled
    else w'.settled = w.settled := by
  obtain ⟨a, ha, hp⟩ := Option.bind_eq_some.mp h
  have threads := perform_threads hp fun u i b => inv.noBuyItem u i b .asleep
  have store := perform_store hp
  have quiet (none : a.write = .none) (owed : a.next.owed = (w.threads t).owed) :
      w'.settled = w.settled := settled_of_quiet threads (by rw [store, none]; rfl) owed
  have wf := inv.wellFormed t
  rw [threads, Function.update_same]
  cases hpt : w.threads t with
  | idle => rw [hpt] at ha; cases ha
  | buyItem i b pc => exact absurd hpt (inv.noBuyItem t i b pc)
  | slot i op pc =>
    rw [hpt] at ha hc quiet
    cases c <;> simp only [Matches] at hc
    obtain ⟨hi, rfl⟩ := hc
    cases pc <;> cases ha
    · exact quiet rfl rfl
    · have held : (w.threads t).holds true (.itemMtx i) = true := by
        simp [hpt, Pc.holds, SlotPc.holds, slotMutex]
      have clear : i ∉ (w.threads t).owed := by simp [hpt, Pc.owed]
      refine ⟨rfl, ?_⟩
      rw [settled_of_setItem threads store (by simp [hpt, Pc.owed, Act.next])
        (inv.owing_eq_zero held clear)]
      simp only [Call.apply, slotCall, hi, inv.settled_at held clear]
    · exact quiet rfl rfl
  | getItemQuantity i pc =>
    rw [hpt] at ha hc quiet
    cases c <;> simp only [Matches] at hc
    cases pc <;> cases ha
    · exact quiet rfl rfl
    · have held : (w.threads t).holds true (.itemMtx i) = true := by
        simp [hpt, Pc.holds, GetPc.holds, slotMutex]
      have clear : i ∉ (w.threads t).owed := by simp [hpt, Pc.owed]
      refine ⟨?_, (quiet rfl rfl).symm⟩
      simp only [Call.result, getItemQuantity, hc, quantityAt, Pc.effect, inv.settled_at held clear]
    · exact quiet rfl rfl
  | setter x pc =>
    rw [hpt] at ha hc quiet
    cases c <;> simp only [Matches] at hc
    subst hc
    cases pc <;> simp only [Pc.next, SetPc.next] at ha <;> (try split at ha) <;> cases ha
    all_goals first
      | exact quiet rfl rfl
      | exact ⟨rfl, (settled_of_setter threads store (by simp [hpt, Pc.owed, Act.next])).symm⟩
  | buyManyItems ids b pc =>
    rw [hpt] at ha hc quiet checked wf
    cases c <;> simp only [Matches] at hc
    rename_i itemIds budget
    obtain ⟨hids, rfl⟩ := hc
    cases pc with
    | check sh d todo total =>
      have apply : (Call.buyManyItems itemIds b).apply w.settled (sh, d) =
          if checkLoop w.store sh d b todo total then w.settled.commit ids else w.settled := by
        rw [Call.apply_buyManyItems hids, buyManyItemsAt, inv.checkLoop_settled hpt, checked]
      cases todo with
      | nil =>
        cases ha
        exact ⟨rfl, apply.trans (settled_of_commit threads store (by simp [hpt, Pc.owed])
          rfl wf.1.nodup).symm⟩
      | cons i todo =>
        simp only [Pc.next, ManyPc.next] at ha
        split at ha <;> cases ha
        · rename_i fails
          exact ⟨rfl, apply.trans (by simp [checkLoop, fails, quiet rfl rfl])⟩
        · exact quiet rfl rfl
    | commit todo =>
      cases todo with
      | nil => cases ha; exact quiet rfl rfl
      | cons i todo =>
        cases ha
        have nodup := (wf.1.nodup.sublist wf.2.sublist)
        exact settled_of_decrement threads store (by simp [hpt, Pc.owed, Act.next])
          (List.nodup_cons.mp nodup).1
    | lock _ _ _ todo | unlock todo => cases todo <;> cases ha <;> exact quiet rfl rfl
    | _ => cases ha; exact quiet rfl rfl

/-! ## The other threads -/

/-- In fine mode the other threads stand still. -/
theorem FineInv.other (inv : FineInv w) {m : Move R} (h : w.step t m = some w') {u : Fin T}
    (ne : u ≠ t) : w'.threads u = w.threads u := by
  obtain ⟨b, e⟩ := step_other h ne
  rw [e, woken_of_not_asleep (fun i b' => inv.noBuyItem u i b' .asleep)]

/-- A step of another thread leaves the slots a thread holds alone. -/
theorem FineInv.store_frame (inv : FineInv w) {m : Move R} (h : w.step t m = some w') {u : Fin T}
    (ne : u ≠ t) {j : Fin n} (held : (w.threads u).holds true (.itemMtx j) = true) :
    w'.store.inventory j = w.store.inventory j := by
  rcases step_store h with same | ⟨wr, b, p, -, hn, e⟩
  · rw [same]
  · rw [e]
    refine next_write_frame hn (inv.wellFormed t) (inv.noBuyItem t) ?_
    by_contra free
    exact ne (inv.unique _ u t held (by simpa using free))

/-- A thread's own statement keeps its check loop in agreement with the store. -/
theorem CheckOk.next (checked : CheckOk s p) (h : p.next s = some a) :
    CheckOk (a.write.apply s) a.next := by
  cases p with
  | buyManyItems ids b pc =>
    cases pc with
    | lock sh d held todo => cases todo <;> cases h <;> trivial
    | check sh d todo total =>
      cases todo with
      | nil => cases h; trivial
      | cons i todo =>
        simp only [Pc.next, ManyPc.next] at h
        split at h <;> cases h
        · trivial
        · rename_i total' passes
          exact checked.trans (by rw [checkLoop, passes]; rfl)
    | commit todo | unlock todo => cases todo <;> cases h <;> trivial
    | _ => cases h; trivial
  | idle => cases h
  | buyItem i b pc => cases pc <;> cases h <;> trivial
  | slot i op pc => cases pc <;> cases h <;> trivial
  | getItemQuantity i pc => cases pc <;> cases h <;> trivial
  | setter x pc =>
    cases pc <;> simp only [Pc.next, SetPc.next] at h <;> (try split at h) <;> cases h <;> trivial

theorem FineInv.checked_step (inv : FineInv w) (checked : ∀ u, CheckOk w.store (w.threads u))
    {m : Move R} (h : w.step t m = some w') (u : Fin T) : CheckOk w'.store (w'.threads u) := by
  by_cases hu : u = t
  · subst hu
    rcases step_cases h with ⟨c, -, -, -, rfl⟩ | ⟨i, b, -, asleep, -⟩ | ⟨-, a, ha, hp⟩
    · simp only [Function.update_same]
      cases c <;> simp only [Call.entry] <;> (try split) <;> trivial
    · exact absurd asleep (inv.noBuyItem u i b .asleep)
    · rw [perform_threads hp fun v i b => inv.noBuyItem v i b .asleep, Function.update_same,
        perform_store hp]
      exact (checked u).next ha
  · rw [inv.other h hu]
    have ok := checked u
    cases hpu : w.threads u with
    | buyManyItems ids b pc =>
      cases pc with
      | check sh d todo total =>
        rw [hpu] at ok
        have agree : ∀ j ∈ ids, w'.store.inventory j = w.store.inventory j := fun j hj =>
          inv.store_frame h hu (by simp [hpu, Pc.holds, ManyPc.holds, hj])
        have wf := inv.wellFormed u
        rw [hpu] at wf
        simp only [CheckOk, checkLoop_congr agree,
          checkLoop_congr fun j hj => agree j (wf.2.subset hj)]
        exact ok
      | _ => trivial
    | _ => trivial

/-! ## The history of a run -/

/-- A call that has taken effect stays so until it returns. -/
theorem pending_next (h : p.next s = some a) (done : p.pending = false) :
    a.next.pending = false := by
  cases p with
  | idle => cases h
  | buyItem => simp [Pc.pending] at done
  | slot i op pc => cases pc <;> cases h <;> simp_all [Pc.pending, Act.next]
  | getItemQuantity i pc => cases pc <;> cases h <;> simp_all [Pc.pending, Act.next]
  | setter x pc =>
    cases pc <;> simp only [Pc.next, SetPc.next] at h <;> (try split at h) <;> cases h <;>
      simp_all [Pc.pending, Act.next]
  | buyManyItems ids b pc =>
    cases pc with
    | commit todo | unlock todo => cases todo <;> cases h <;> simp [Pc.pending, Act.next]
    | _ => simp [Pc.pending] at done

/-- A call that ends as it is made (an id out of range, or an order with no id in range)
changes nothing and returns `0`, as its sequential run does. -/
theorem Call.returns_at_once (c : Call R) (fine : c.allowed true) (done : (c.entry n).pending = false) :
    c.result s = 0 ∧ c.apply s (0, 0) = s := by
  cases c with
  | buyItem => cases fine
  | buyManyItems itemIds b =>
    simp only [Call.entry] at done
    split at done
    · rename_i empty
      simp [Call.result, Call.apply, empty]
    · simp [Pc.pending] at done
  | slot itemId op =>
    simp only [Call.entry] at done
    split at done
    · simp [Pc.pending] at done
    · rename_i none
      simp [Call.result, Call.apply, slotCall, none]
  | setter x => simp [Call.entry, Pc.pending] at done
  | getItemQuantity itemId =>
    simp only [Call.entry] at done
    split at done
    · simp [Pc.pending] at done
    · rename_i none
      simp [Call.result, Call.apply, EStore.getItemQuantity, none]

theorem replay_append (log : List (Entry R T)) (e : Entry R T) :
    replay s (log ++ [e]) = (replay s log).bind fun s' =>
      if e.result = e.call.result s' then some (e.call.apply s' e.snap) else none := by
  induction log generalizing s with
  | nil => simp only [replay, List.nil_append, Option.some_bind]
  | cons e' log ih => simp only [List.cons_append, replay]; split <;> simp [ih]

/-- Thread `t`'s calls in the log, then its current call if that has not taken effect yet,
are the calls it made, in order. -/
def Logged.InOrder (L : Logged R n T) (t : Fin T) : Prop :=
  (L.log.filter (·.thread = t)).map (·.call) ++
      (if (L.world.threads t).pending then [L.calls t] else []) =
    (L.made.filter (·.1 = t)).map (·.2)

omit [Price R] in
theorem Logged.InOrder.extend {L L' : Logged R n T} (hu : L.InOrder t) {A B : List (Call R)}
    (log : (L'.log.filter (·.thread = t)).map (·.call) =
      (L.log.filter (·.thread = t)).map (·.call) ++ A)
    (made : (L'.made.filter (·.1 = t)).map (·.2) = (L.made.filter (·.1 = t)).map (·.2) ++ B)
    (current : A ++ (if (L'.world.threads t).pending then [L'.calls t] else []) =
      (if (L.world.threads t).pending then [L.calls t] else []) ++ B) :
    L'.InOrder t := by
  unfold Logged.InOrder at *
  rw [log, made, List.append_assoc, current, ← List.append_assoc, hu]

/-- What a thread at `p`, running the call `c`, holds agrees with the history: an order carries
the snapshot `snap` its snapshot statement recorded; once the call has taken effect, and until it
returns, `last`, the thread's last entry in the log, is the call with the snapshot it used and
the value the thread returns. -/
def Pc.Agrees (t : Fin T) (c : Call R) (snap : R × R) (last : Option (Entry R T)) : Pc R n → Prop
  | .idle | .buyItem _ _ _ => True
  | .slot _ _ .lock | .slot _ _ .body => True
  | .slot _ _ .unlock => last = some ⟨t, c, (0, 0), 0⟩
  | .getItemQuantity _ .lock | .getItemQuantity _ .read => True
  | .getItemQuantity _ (.unlock q) => last = some ⟨t, c, (0, 0), q⟩
  | .setter _ .lock | .setter _ .body => True
  | .setter _ (.unlock _) | .setter _ (.wakeLock _) | .setter _ (.wakeBroadcast _)
  | .setter _ (.wakeUnlock _) | .setter _ .extraUnlock => last = some ⟨t, c, (0, 0), 0⟩
  | .buyManyItems _ _ .lockGlobal | .buyManyItems _ _ .snapshot => True
  | .buyManyItems _ _ (.unlockGlobal sh d) | .buyManyItems _ _ (.lock sh d _ _)
  | .buyManyItems _ _ (.check sh d _ _) => (sh, d) = snap
  | .buyManyItems _ _ (.commit _) | .buyManyItems _ _ (.unlock _) => last = some ⟨t, c, snap, 0⟩

/-- Thread `t` agrees with the history: its current call, its recorded snapshot and its last
entry in the log. -/
def Logged.Agrees (L : Logged R n T) (t : Fin T) : Prop :=
  (L.world.threads t).Agrees t (L.calls t) (L.snaps t) (L.log.filter (·.thread = t)).getLast?

omit [Price R] in
/-- The last entry of thread `u` after a step that may log `e`. -/
theorem last_logged (log : List (Entry R T)) (logs : Bool) (e : Entry R T) (u : Fin T) :
    ((if logs then log ++ [e] else log).filter (·.thread = u)).getLast? =
      if logs ∧ e.thread = u then some e else (log.filter (·.thread = u)).getLast? := by
  cases logs <;> by_cases h : e.thread = u <;> simp [h, List.filter_append]

theorem entry_agrees (c : Call R) (t : Fin T) (snap : R × R) (last : Option (Entry R T)) :
    (c.entry n).Agrees t c snap last := by
  cases c <;> simp only [Call.entry] <;> (try split) <;> simp [Pc.Agrees, Pc.pending]

/-- **A thread's own statement keeps it in agreement with the history.** The snapshot statement
records what it reads, and the statement at which the call takes effect logs the snapshot it
carries and the value it will return. -/
theorem Pc.Agrees.next {snap : R × R} {last : Option (Entry R T)} (ag : p.Agrees t c snap last)
    (h : p.next s = some a) :
    a.next.Agrees t c (p.snapped s snap)
      (if p.pending && !a.next.pending then some ⟨t, c, (p.effect s).1, (p.effect s).2⟩
        else last) := by
  cases p with
  | idle => cases h
  | buyItem i b pc => cases pc <;> cases h <;> simp [Pc.Agrees, Pc.pending, Act.next]
  | slot i op pc =>
    cases pc <;> cases h <;> simp_all [Pc.Agrees, Pc.pending, Pc.effect, Pc.snapped, Act.next]
  | getItemQuantity i pc =>
    cases pc <;> cases h <;> simp_all [Pc.Agrees, Pc.pending, Pc.effect, Pc.snapped, Act.next]
  | setter x pc =>
    cases pc <;> simp only [Pc.next, SetPc.next] at h <;> (try split at h) <;> cases h <;>
      simp_all [Pc.Agrees, Pc.pending, Pc.effect, Pc.snapped, Act.next]
  | buyManyItems ids b pc =>
    cases pc with
    | check sh d todo total =>
      cases todo <;> simp only [Pc.next, ManyPc.next] at h <;> (try split at h) <;> cases h <;>
        simp_all [Pc.Agrees, Pc.pending, Pc.effect, Pc.snapped, Act.next]
    | lock _ _ _ todo | commit todo | unlock todo =>
      cases todo <;> cases h <;> simp_all [Pc.Agrees, Pc.pending, Pc.effect, Pc.snapped, Act.next]
    | _ => cases h; simp_all [Pc.Agrees, Pc.pending, Pc.effect, Pc.snapped, Act.next]

/-- The invariant of the fine-mode runs with history from the store `s`: the lock invariant,
each thread at a stage of its current call, every check loop in agreement with the store, the
log replaying to the settled store, and every thread's calls logged in its order. -/
structure SerialInv (s : EStore R n) (L : Logged R n T) : Prop where
  fine : FineInv L.world
  running : ∀ t, Matches (L.calls t) (L.world.threads t)
  checked : ∀ t, CheckOk L.world.store (L.world.threads t)
  replayed : replay s L.log = some L.world.settled
  inOrder : ∀ t, L.InOrder t
  agrees : ∀ t, L.Agrees t

variable {s₀ : EStore R n} {L L' : Logged R n T}

theorem SerialInv.call (inv : SerialInv s₀ L) {c : Call R} (h : L.step t (.call c) = some L') :
    SerialInv s₀ L' := by
  obtain ⟨w', hw, rfl⟩ := Option.map_eq_some'.mp h
  obtain ⟨c', hc, idle, allowed, rfl⟩ | ⟨_, _, hm, -⟩ | ⟨hm, -⟩ := step_cases hw
  · cases hc
    dsimp only
    have idle : L.world.threads t = .idle := by
      cases e : L.world.threads t <;> simp_all [Pc.isIdle]
    have settled : ({ L.world with threads := Function.update L.world.threads t (c.entry n) } :
        World R n T).settled = L.world.settled :=
      settled_of_quiet rfl rfl (by rw [idle, entry_owed]; rfl)
    refine ⟨inv.fine.step hw, fun u => ?_, inv.fine.checked_step inv.checked hw, ?_, fun u => ?_,
      fun u => ?_⟩
    · by_cases hu : u = t
      · subst hu; simpa using entry_matches c
      · simpa [Function.update_noteq hu] using inv.running u
    · simp only [Function.update_same]
      split
      · rename_i done
        obtain ⟨result, apply⟩ := c.returns_at_once (s := L.world.settled)
          (by rwa [inv.fine.fine] at allowed) (by simpa using done)
        rw [replay_append, inv.replayed, Option.some_bind, settled]
        dsimp only
        rw [← result, if_pos rfl, apply]
      · rw [settled]; exact inv.replayed
    · by_cases hu : u = t
      · subst hu
        refine (inv.inOrder u).extend (A := if !(c.entry n).pending then [c] else []) (B := [c])
          ?_ (by simp) ?_
        · simp only [Function.update_same]
          split <;> simp
        · simp only [Function.update_same, idle, Pc.pending]
          split <;> simp_all
      · refine (inv.inOrder u).extend (A := []) (B := []) ?_ (by simp [Ne.symm hu]) ?_
        · split <;> simp [Ne.symm hu]
        · simp [Function.update_noteq hu]
    · by_cases hu : u = t
      · subst hu
        simp only [Logged.Agrees, Function.update_same]
        exact entry_agrees c u _ _
      · have ag := inv.agrees u
        simp only [Logged.Agrees, Function.update_noteq hu, last_logged] at ag ⊢
        simpa [Ne.symm hu] using ag
  · cases hm
  · cases hm

theorem SerialInv.next (inv : SerialInv s₀ L) (h : L.step t .next = some L') : SerialInv s₀ L' := by
  obtain ⟨w', hw, rfl⟩ := Option.map_eq_some'.mp h
  dsimp only
  obtain ⟨a, ha, hp⟩ := Option.bind_eq_some.mp hw
  have moved := perform_threads hp fun u i b => inv.fine.noBuyItem u i b .asleep
  have sim := inv.fine.settled_next (inv.checked t) (inv.running t) hw
  refine ⟨inv.fine.step hw, fun u => ?_, inv.fine.checked_step inv.checked hw, ?_, fun u => ?_,
    fun u => ?_⟩
  · by_cases hu : u = t
    · subst hu
      rw [moved, Function.update_same]
      exact (inv.running u).next ha
    · rw [inv.fine.other hw hu]; exact inv.running u
  · split
    · rename_i took
      rw [if_pos took] at sim
      rw [replay_append, inv.replayed, Option.some_bind]
      dsimp only
      rw [← sim.1, if_pos rfl, sim.2]
    · rename_i quiet
      rw [if_neg quiet] at sim
      rw [sim]; exact inv.replayed
  · by_cases hu : u = t
    · subst hu
      have after : (w'.threads u).pending = a.next.pending := by rw [moved, Function.update_same]
      refine (inv.inOrder u).extend (A := if (L.world.threads u).pending && !(w'.threads u).pending
        then [L.calls u] else []) (B := []) (by split <;> simp) (by simp) ?_
      rw [after]
      cases hb : (L.world.threads u).pending <;> cases ha' : a.next.pending <;> simp
      exact absurd (pending_next ha hb) (by simp [ha'])
    · refine (inv.inOrder u).extend (A := []) (B := []) (by split <;> simp [Ne.symm hu])
        (by simp) (by simp [inv.fine.other hw hu])
  · by_cases hu : u = t
    · subst hu
      have ag := (inv.agrees u).next ha
      simp only [Logged.Agrees, moved, Function.update_same, last_logged, and_true] at ag ⊢
      exact ag
    · have ag := inv.agrees u
      simp only [Logged.Agrees, inv.fine.other hw hu, Function.update_noteq hu, last_logged] at ag ⊢
      simpa [Ne.symm hu] using ag

/-- **The invariant is kept by every step.** -/
theorem SerialInv.step (inv : SerialInv s₀ L) {m : Move R} (h : L.step t m = some L') :
    SerialInv s₀ L' := by
  cases m with
  | call c => exact inv.call h
  | next => exact inv.next h
  | wake =>
    obtain ⟨w', hw, -⟩ := Option.map_eq_some'.mp h
    obtain ⟨_, hm, -⟩ | ⟨i, b, -, asleep, -⟩ | ⟨hm, -⟩ := step_cases hw
    · cases hm
    · exact absurd asleep (inv.fine.noBuyItem t i b .asleep)
    · cases hm

theorem reach_serialInv (fine : s₀.fineMode = true) (reach : Logged.Reach s₀ L) :
    SerialInv s₀ L := by
  induction reach with
  | start =>
    refine ⟨reach_fineInv fine .start, fun _ => trivial, fun _ => trivial, ?_, fun _ => rfl,
      fun _ => trivial⟩
    simp only [replay, Logged.init, Option.some.injEq]
    ext <;> simp [World.owing, World.init, Pc.owed]
  | step t m _ h ih => exact ih.step h

/-- **Fine mode is serializable.** In every state a fine-mode store reaches, with any number
of threads running any calls: the calls that took effect, run one after the other from the
first store, each atomically and each `buyManyItems` with the shipping cost and store
discount of its snapshot, return the values logged for them and leave the store with every
commit loop run to its end; each thread's calls are among them in the thread's own order, each
once, all but a current one that has not taken effect yet; and each thread agrees with the log:
the snapshot an order carries is what its snapshot statement read, and a call that took effect
and has not returned is its thread's last entry, with the snapshot it used and the value the
thread returns. -/
theorem serializable (fine : s₀.fineMode = true) (reach : Logged.Reach s₀ L) :
    replay s₀ L.log = some L.world.settled ∧ ∀ t, L.InOrder t ∧ L.Agrees t :=
  have inv := reach_serialInv fine reach
  ⟨inv.replayed, fun t => ⟨inv.inOrder t, inv.agrees t⟩⟩

/-- Thread 0 adds slots 0 and 1 with one unit each, then orders the ids `[1, 0, 1]` with budget
`10`, up to the first decrement of its commit loop. -/
def partialRun : List (Fin 1 × Move ℚ) :=
  [(0, .call (.slot 0 (.addItem 1 0 0))), (0, .next), (0, .next), (0, .next),
   (0, .call (.slot 1 (.addItem 1 0 0))), (0, .next), (0, .next), (0, .next),
   (0, .call (.buyManyItems [1, 0, 1] 10)), (0, .next), (0, .next), (0, .next), (0, .next),
   (0, .next), (0, .next), (0, .next), (0, .next), (0, .next), (0, .next)]

/-- The run `partialRun` with its history, from a fresh fine-mode store of two slots. -/
def partialLogged : Logged ℚ 2 1 :=
  ((Logged.init (create 2 true 0 0)).exec partialRun).get (by with_unfolding_all decide)

/-- The theorem after `partialRun`, where the order has taken effect and is in its commit
loop. -/
theorem partialLogged_serializable :
    replay (create 2 true 0 0) partialLogged.log = some partialLogged.world.settled ∧
      ∀ t, partialLogged.InOrder t ∧ partialLogged.Agrees t :=
  serializable rfl (Logged.Reach.start.exec (Option.eq_some_of_isSome _))

/-- **The commit loop shows a partial order.** After `partialRun` the order on the ids
`[0, 1]` has lowered the quantity of slot 0 to `0` and not yet that of slot 1, which is still
`1`: its thread is at the commit of id 1. -/
theorem commit_loop_shows_partial_order :
    ((World.init (create 2 true 0 0) : World ℚ 2 1).exec partialRun).map
        (fun w => (w.threads 0, (w.store.inventory 0).quantity, (w.store.inventory 1).quantity)) =
      some (.buyManyItems [0, 1] 10 (.commit [1]), 0, 1) := by
  with_unfolding_all decide

end Labs.EStore

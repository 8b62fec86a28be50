import AsyncMutex.WaiterListSpec
import Mathlib.Data.Fintype.Card

/-!
# Waiter lists as sequences

A waiter list whose pointers hold a sequence behaves as this sequence, whatever
else there is in the heap.  `RawFutex::enqueue` ends for every finite stack and
deals its waiters out to the queues.
-/

namespace AsyncMutex

namespace DoublyLinked

variable {ν β : Type*} {heap : Heap ν β}

/-- The prev links determine the stack below a node. -/
theorem Stack.eq_of_head {first second : List ν} (hfirst : Stack heap first)
    (hsecond : Stack heap second) (hhead : first.head? = second.head?) : first = second := by
  induction first generalizing second with
  | nil => exact (List.head?_eq_none_iff.mp hhead.symm).symm
  | cons node below ih =>
      cases second with
      | nil => cases hhead
      | cons node' below' =>
          cases hhead
          obtain ⟨hprev, hbelow⟩ := hfirst
          obtain ⟨hprev', hbelow'⟩ := hsecond
          rw [ih hbelow hbelow' (hprev.symm.trans hprev')]

theorem Stack.of_append {first second : List ν} (hstack : Stack heap (first ++ second)) :
    Stack heap second := by
  induction first with
  | nil => exact hstack
  | cons node below ih => exact ih hstack.2

/-- A finite stack does not come back to a node. -/
theorem Stack.nodup {nodes : List ν} (hstack : Stack heap nodes) : nodes.Nodup := by
  induction nodes with
  | nil => exact List.nodup_nil
  | cons node below ih =>
      refine List.nodup_cons.mpr ⟨fun hmem => ?_, ih hstack.2⟩
      obtain ⟨before, after, rfl⟩ := List.append_of_mem hmem
      have hagain : Stack heap (node :: after) := hstack.2.of_append
      have hsame := congrArg List.length (hstack.eq_of_head hagain rfl)
      simp only [List.length_cons, List.length_append] at hsame
      omega

end DoublyLinked

open DoublyLinked

namespace WaiterList

variable {τ κ : Type*}

/-- Waiters are at addresses, and none of them is at the null pointer. -/
structure Addresses (τ : Type*) where
  address : τ → Fin (2 ^ 64)
  injective : Function.Injective address
  nonnull : ∀ waiter, address waiter ≠ 0

/-- No list is longer than `usize::MAX`. -/
theorem Addresses.length_le (addresses : Addresses τ) {waiters : List τ}
    (hnodup : waiters.Nodup) : waiters.length ≤ usizeMax := by
  have hall : (0 :: waiters.map addresses.address).Nodup := by
    refine List.nodup_cons.mpr ⟨fun hmem => ?_, hnodup.map addresses.injective⟩
    obtain ⟨waiter, -, hzero⟩ := List.mem_map.mp hmem
    exact addresses.nonnull waiter hzero
  have hcard := hall.length_le_card
  rw [Fintype.card_fin, List.length_cons, List.length_map] at hcard
  exact Nat.le_sub_one_of_lt hcard

variable [DecidableEq τ]

/-- The operations on `list` are those on the sequence `waiters`, and touch no
other waiter. -/
structure Refines (heap : WaiterHeap τ κ) (list : WaiterList τ) (waiters : List τ) :
    Prop where
  pushBack : ∀ waiter, waiter ∉ waiters → (heap waiter).next = none →
    (heap waiter).prev = none →
      ∃ heap' list', list.pushBack heap waiter = some (heap', list') ∧
        list'.Contains heap' (waiters ++ [waiter]) ∧
        SameOutside heap heap' {other | other ∈ waiters ++ [waiter]}
  popFront : ∃ heap' list', list.popFront heap = (heap', list', waiters.head?) ∧
    list'.Contains heap' waiters.tail ∧
    (∀ waiter ∈ waiters.head?, (heap' waiter).next = none ∧ (heap' waiter).prev = none) ∧
    SameOutside heap heap' {other | other ∈ waiters}
  popFrontMany : ∀ count, count ≤ usizeMax →
    ∃ heap' kept popped, list.popFrontMany heap count = (heap', kept, popped) ∧
      kept.Contains heap' (waiters.drop (min count waiters.length)) ∧
      popped.Contains heap' (waiters.take (min count waiters.length)) ∧
      SameOutside heap heap' {other | other ∈ waiters}
  remove : ∀ waiter ∈ waiters,
    (list.remove heap waiter).2.Contains (list.remove heap waiter).1
        (waiters.erase waiter) ∧
      SameOutside heap (list.remove heap waiter).1 {other | other ∈ waiters}
  removeNull : ∀ waiter, waiter ∉ waiters → (heap waiter).next = none →
    (heap waiter).prev = none → list.remove heap waiter = (heap, list)

theorem Refines.of_contains (addresses : Addresses τ) {heap : WaiterHeap τ κ}
    {list : WaiterList τ} {waiters : List τ} (hold : list.Contains heap waiters) :
    Refines heap list waiters where
  pushBack _ hmem hnext hprev := pushBack_spec hold hmem hnext hprev
  popFront := by
    cases waiters with
    | nil => exact ⟨heap, list, popFront_nil hold, hold, by simp, SameOutside.refl heap _⟩
    | cons waiter rest =>
        obtain ⟨heap', list', hpop, hrest, hnext, hprev, hsame⟩ := popFront_spec hold
        refine ⟨heap', list', hpop, hrest, fun other hother => ?_, hsame⟩
        cases hother
        exact ⟨hnext, hprev⟩
  popFrontMany count hcount := by
    have hlength := addresses.length_le hold.nodup
    obtain ⟨heap', kept, popped, hpop, hkept, hpopped, hsame⟩ := popFrontMany_spec hold count
    refine ⟨heap', kept, popped, hpop, ?_, ?_, hsame⟩
    · rw [back_eq_drop hlength] at hkept
      rwa [← List.drop_eq_drop_min]
    · rw [front_eq_take hlength] at hpopped
      rwa [← List.take_eq_take_min]
  remove waiter hmem := by
    obtain ⟨before, after, rfl⟩ := List.append_of_mem hmem
    have hbefore : waiter ∉ before := by
      intro hin
      exact (List.nodup_append.mp hold.nodup).2.2 waiter hin waiter List.mem_cons_self rfl
    obtain ⟨hremove, hsame⟩ := remove_spec hold
    rw [List.erase_append_right _ hbefore, List.erase_cons_head]
    refine ⟨hremove, hsame.mono fun other hother => ?_⟩
    rcases List.mem_append.mp hother with hin | hin
    · exact List.mem_append_left _ hin
    · exact List.mem_append_right _ (List.mem_cons_of_mem waiter hin)
  removeNull _ hmem hnext hprev := remove_of_null hold hmem hnext hprev

/-! ## Enqueuing -/

theorem fromStackLoop_mono {heap : WaiterHeap τ κ} {head : τ} {fuel fuel' : ℕ}
    (hfuel : fuel ≤ fuel') {result : WaiterHeap τ κ × τ}
    (hloop : fromStackLoop fuel heap head = some result) :
    fromStackLoop fuel' heap head = some result := by
  induction fuel generalizing fuel' heap head with
  | zero => cases hloop
  | succ fuel ih =>
      obtain ⟨fuel', rfl⟩ : ∃ more, fuel' = more + 1 := ⟨fuel' - 1, by omega⟩
      rw [fromStackLoop] at hloop ⊢
      cases hprev : (heap head).prev with
      | none =>
          rw [hprev] at hloop
          exact hloop
      | some prev =>
          rw [hprev] at hloop
          exact ih (Nat.le_of_succ_le_succ hfuel) hloop

variable [DecidableEq κ]

theorem enqueueLoop_mono {heap : WaiterHeap τ κ} {queues : κ → WaiterList τ}
    {list : WaiterList τ} {fuel fuel' : ℕ} (hfuel : fuel ≤ fuel')
    {result : WaiterHeap τ κ × (κ → WaiterList τ)}
    (hloop : enqueueLoop fuel heap queues list = some result) :
    enqueueLoop fuel' heap queues list = some result := by
  induction fuel generalizing fuel' heap queues list with
  | zero => cases hloop
  | succ fuel ih =>
      obtain ⟨fuel', rfl⟩ : ∃ more, fuel' = more + 1 := ⟨fuel' - 1, by omega⟩
      rw [enqueueLoop] at hloop ⊢
      split at hloop
      case h_1 => exact hloop
      case h_2 heap' list' waiter _ =>
        simp only at hloop ⊢
        split at hloop
        case h_1 => cases hloop
        case h_2 => exact ih (Nat.le_of_succ_le_succ hfuel) hloop

theorem enqueue_mono {heap : WaiterHeap τ κ} {queues : κ → WaiterList τ} {stack : Option τ}
    {fuel fuel' : ℕ} (hfuel : fuel ≤ fuel') {result : WaiterHeap τ κ × (κ → WaiterList τ)}
    (hrun : enqueue fuel heap queues stack = some result) :
    enqueue fuel' heap queues stack = some result := by
  obtain ⟨middle, hfrom, hloop⟩ := Option.bind_eq_some_iff.mp hrun
  refine Option.bind_eq_some_iff.mpr ⟨middle, ?_, enqueueLoop_mono hfuel hloop⟩
  cases stack with
  | none => exact hfrom
  | some waiter =>
      obtain ⟨result', hloop', hresult⟩ := Option.map_eq_some_iff.mp hfrom
      exact Option.map_eq_some_iff.mpr ⟨result', fromStackLoop_mono hfuel hloop', hresult⟩

/-- `RawFutex::enqueue` ends, appends to each queue the waiters of the stack
that ask for it, oldest first, and touches no other waiter. -/
def Deals (heap : WaiterHeap τ κ) (queues : κ → WaiterList τ) (content : κ → List τ)
    (stack : List τ) : Prop :=
  ∃ heap' queues', (∀ fuel, stack.length < fuel →
      enqueue fuel heap queues stack.head? = some (heap', queues')) ∧
    (∀ queue, (queues' queue).Contains heap' (content queue ++
      stack.reverse.filter fun waiter => (heap waiter).data = queue)) ∧
    SameOutside heap heap' {waiter | waiter ∈ stack ∨ ∃ queue, waiter ∈ content queue}

theorem Deals.of_stack {heap : WaiterHeap τ κ} {queues : κ → WaiterList τ}
    {content : κ → List τ} {stack : List τ}
    (hqueues : ∀ queue, (queues queue).Contains heap (content queue))
    (hstack : Stack heap stack) (htop : ∀ top ∈ stack.head?, (heap top).next = none)
    (hapart : ∀ waiter ∈ stack, ∀ queue, waiter ∉ content queue)
    (hdistinct : ∀ queue queue' waiter, waiter ∈ content queue →
      waiter ∈ content queue' → queue = queue') :
    Deals heap queues content stack := by
  obtain ⟨heap', queues', hrun, hqueues', hsame⟩ :=
    enqueue_spec hqueues hstack hstack.nodup htop hapart hdistinct (Nat.lt_succ_self _)
  exact ⟨heap', queues', fun fuel hfuel => enqueue_mono hfuel hrun, hqueues', hsame⟩

/-- Waiter lists and `enqueue` refine sequences. -/
theorem refines_of_contains (addresses : Addresses τ) (heap : WaiterHeap τ κ) :
    (∀ (list : WaiterList τ) (waiters : List τ), list.Contains heap waiters →
        Refines heap list waiters) ∧
      ∀ (queues : κ → WaiterList τ) (content : κ → List τ) (stack : List τ),
        (∀ queue, (queues queue).Contains heap (content queue)) →
        Stack heap stack → (∀ top ∈ stack.head?, (heap top).next = none) →
        (∀ waiter ∈ stack, ∀ queue, waiter ∉ content queue) →
        (∀ queue queue' waiter, waiter ∈ content queue → waiter ∈ content queue' →
          queue = queue') → Deals heap queues content stack :=
  ⟨fun _ _ hold => Refines.of_contains addresses hold,
    fun _ _ _ hqueues hstack htop hapart hdistinct =>
      Deals.of_stack hqueues hstack htop hapart hdistinct⟩

/-- Two queues and a stack of three waiters that ask for one or the other. -/
theorem refines_of_three :
    ∃ heap : WaiterHeap (Fin 6) (Fin 2), Refines heap ⟨some 0, some 1⟩ [0, 1] ∧
      (heap 3).data = 1 ∧ (heap 4).data = 0 ∧ (heap 5).data = 1 ∧
      Deals heap (fun queue => if queue = 0 then ⟨some 0, some 1⟩ else ⟨some 2, some 2⟩)
        (fun queue => if queue = 0 then [0, 1] else [2]) [5, 4, 3] := by
  let heap : WaiterHeap (Fin 6) (Fin 2) := fun waiter =>
    match waiter with
    | 0 => ⟨some 1, none, 0⟩
    | 1 => ⟨none, some 0, 0⟩
    | 2 => ⟨none, none, 1⟩
    | 3 => ⟨none, none, 1⟩
    | 4 => ⟨none, some 3, 0⟩
    | 5 => ⟨none, some 4, 1⟩
  have hfits : 6 + 1 ≤ 2 ^ 64 := by decide
  let addresses : Addresses (Fin 6) :=
    ⟨fun waiter => waiter.succ.castLE hfits,
      (Fin.castLE_injective hfits).comp (Fin.succ_injective 6),
      fun waiter hzero => Nat.succ_ne_zero waiter (congrArg Fin.val hzero)⟩
  have hfirst : WaiterList.Contains heap ⟨some 0, some 1⟩ [0, 1] :=
    ⟨rfl, rfl, ⟨rfl, rfl, rfl, rfl, trivial⟩, by decide⟩
  have hsecond : WaiterList.Contains heap ⟨some 2, some 2⟩ [2] :=
    ⟨rfl, rfl, ⟨rfl, rfl, trivial⟩, by decide⟩
  obtain ⟨hlist, hdeals⟩ := refines_of_contains addresses heap
  refine ⟨heap, hlist _ _ hfirst, rfl, rfl, rfl, hdeals _ _ _ ?_ ?_ ?_ ?_ ?_⟩
  · intro queue
    by_cases hqueue : queue = 0
    · simpa only [hqueue, if_true] using hfirst
    · simpa only [hqueue, if_false] using hsecond
  · exact ⟨rfl, rfl, rfl, trivial⟩
  · intro top htop
    cases htop
    rfl
  · decide
  · decide

end WaiterList

end AsyncMutex

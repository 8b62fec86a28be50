import AsyncMutex.WaiterList

/-!
# Specifications of the waiter lists

Each operation of `WaiterList` is matched with the operation on sequences it
implements.  The frame is always the same: only waiters of the lists named in
the statement change, and payloads never do.
-/

namespace AsyncMutex.WaiterList

open DoublyLinked

variable {τ κ : Type*} [DecidableEq τ]

/-! ## Single operations -/

/-- Appending a waiter with null links. -/
theorem pushBack_spec {heap : WaiterHeap τ κ} {list : WaiterList τ}
    {waiters : List τ} (hold : list.Contains heap waiters) {waiter : τ}
    (hmem : waiter ∉ waiters) (hnext : (heap waiter).next = none)
    (hprev : (heap waiter).prev = none) :
    ∃ heap' list', pushBack heap list waiter = some (heap', list') ∧
      list'.Contains heap' (waiters ++ [waiter]) ∧
      SameOutside heap heap' {other | other ∈ waiters ++ [waiter]} := by
  have hnodup : (waiters ++ [waiter]).Nodup := by
    refine List.nodup_append.mpr ⟨hold.nodup, by simp, ?_⟩
    rintro other hother _ hsingle rfl
    rw [List.mem_singleton.mp hsingle] at hother
    exact hmem hother
  cases waiters using List.reverseRecOn with
  | nil =>
      have hhead : list.head = none := hold.first_eq
      have htail : list.tail = none := hold.last_eq
      refine ⟨heap, ⟨some waiter, some waiter⟩, by simp [pushBack, hhead, htail],
        ⟨rfl, rfl, ?_, hnodup⟩, SameOutside.refl heap _⟩
      exact ⟨hprev, hnext, trivial⟩
  | append_singleton init tail =>
      have htail : list.tail = some tail := by simpa using hold.last_eq
      have htailMem : tail ∉ init := by
        have hnodupInit := hold.nodup
        rw [List.nodup_append] at hnodupInit
        exact fun hin => hnodupInit.2.2 tail hin tail (by simp) rfl
      have hne : waiter ≠ tail := fun heq => hmem (by simp [heq])
      refine ⟨(heap.setNext tail (some waiter)).setPrev waiter (some tail),
        { list with tail := some waiter }, by simp [pushBack, htail],
        ⟨?_, by simp, ?_, hnodup⟩, ?_⟩
      · have hfirst := hold.first_eq
        cases init <;> simpa using hfirst
      · rw [segment_append]
        constructor
        · have hlast := hold.segment.setNext_last htailMem (some waiter)
          simpa using hlast.setPrev_of_notMem hmem (some tail)
        · simp [segment_cons, Heap.setNext_of_ne heap (some waiter) hne, hnext]
      · exact (SameOutside.setNext heap (by simp) _).trans
          (SameOutside.setPrev _ (by simp) _)

theorem popFront_nil {heap : WaiterHeap τ κ} {list : WaiterList τ}
    (hold : list.Contains heap []) : popFront heap list = (heap, list, none) := by
  have hhead : list.head = none := hold.first_eq
  simp [popFront, hhead]

/-- Removing the head resets both links of the waiter that is returned. -/
theorem popFront_spec {heap : WaiterHeap τ κ} {list : WaiterList τ}
    {waiter : τ} {rest : List τ}
    (hold : list.Contains heap (waiter :: rest)) :
    ∃ heap' list', popFront heap list = (heap', list', some waiter) ∧
      list'.Contains heap' rest ∧
      (heap' waiter).next = none ∧ (heap' waiter).prev = none ∧
      SameOutside heap heap' {other | other ∈ waiter :: rest} := by
  have hhead : list.head = some waiter := by simpa using hold.first_eq
  obtain ⟨hmem, hnodup⟩ := List.nodup_cons.mp hold.nodup
  obtain ⟨hprev, hnext, hrest⟩ := hold.segment
  cases rest with
  | nil =>
      have htail : list.tail = some waiter := by simpa using hold.last_eq
      have hnull : (heap waiter).next = none := by simpa using hnext
      refine ⟨heap.setNext waiter none, ⟨none, none⟩,
        by simp [popFront, hhead, htail, hnull], holds_nil _, by simp,
        by simpa using hprev, SameOutside.setNext heap (by simp) none⟩
  | cons second rest =>
      have hsecond : (heap waiter).next = some second := by simpa using hnext
      have hne : waiter ≠ second := fun heq => hmem (by simp [heq])
      have htail : list.tail ≠ some waiter := by
        rw [hold.last_eq]
        intro heq
        apply hmem
        have hlast : (second :: rest).getLast? = some waiter := by
          simpa using heq
        exact List.mem_of_getLast? hlast
      refine ⟨(heap.setPrev second none).setNext waiter none,
        ⟨some second, list.tail⟩, by simp [popFront, hhead, hsecond, htail],
        ⟨rfl, ?_, ?_, hnodup⟩, by simp, ?_, ?_⟩
      · simpa using hold.last_eq
      · have hcut := hrest.setPrev_head (List.nodup_cons.mp hnodup).1 none
        exact hcut.setNext_of_notMem hmem none
      · simpa [Heap.setPrev_of_ne heap none hne] using hprev
      · exact (SameOutside.setPrev heap (by simp) none).trans
          (SameOutside.setNext _ (by simp) none)

omit [DecidableEq τ] in
theorem segment_at {heap : WaiterHeap τ κ} {before after : List τ}
    {waiter : τ}
    (hseg : Segment heap none (before ++ waiter :: after) none) :
    (heap waiter).prev = before.getLast? ∧ (heap waiter).next = after.head? := by
  rw [segment_append] at hseg
  obtain ⟨-, hprev, hnext, -⟩ := hseg
  exact ⟨by simpa using hprev, by simpa using hnext⟩

/-- Removing a member unlinks exactly it.  Its own links stay as they were. -/
theorem remove_spec {heap : WaiterHeap τ κ} {list : WaiterList τ}
    {before after : List τ} {waiter : τ}
    (hold : list.Contains heap (before ++ waiter :: after)) :
    (remove heap list waiter).2.Contains (remove heap list waiter).1
        (before ++ after) ∧
      SameOutside heap (remove heap list waiter).1
        {other | other ∈ before ++ after} := by
  obtain ⟨hprev, hnext⟩ := segment_at hold.segment
  have hnodup := hold.nodup
  have hnodup' : (before ++ after).Nodup := by
    refine hnodup.sublist ?_
    exact List.Sublist.append_left (List.sublist_cons_self waiter after) before
  have hseg := hold.segment
  rw [segment_append] at hseg
  obtain ⟨hbefore, hself⟩ := hseg
  obtain ⟨-, -, hafter⟩ := hself
  have hfirst := hold.first_eq
  have hlast := hold.last_eq
  cases before using List.reverseRecOn with
  | nil =>
      have hhead : list.head = some waiter := by simpa using hfirst
      cases after with
      | nil =>
          have htail : list.tail = some waiter := by simpa using hlast
          simp only [List.getLast?_nil, List.head?_nil] at hprev hnext
          constructor
          · refine ⟨?_, ?_, trivial, List.nodup_nil⟩ <;>
              simp [remove, hprev, hnext, hhead, htail]
          · simpa [remove, hprev, hnext] using SameOutside.refl heap {other | other ∈ ([] : List τ)}
      | cons second rest =>
          simp only [List.getLast?_nil, List.head?_cons] at hprev hnext
          have hmem : second ∉ rest := by
            simp only [List.nil_append, List.nodup_cons] at hnodup
            exact hnodup.2.1
          constructor
          · refine ⟨?_, ?_, ?_, hnodup'⟩
            · simp [remove, hprev, hnext, hhead]
            · simpa [remove, hprev, hnext, hhead] using hlast
            · simpa [remove, hprev, hnext, hhead] using
                hafter.setPrev_head hmem none
          · simp only [remove, hprev, hnext]
            exact SameOutside.setPrev heap (by simp) none
  | append_singleton init last =>
      have hlastMem : last ∉ init := by
        rw [List.nodup_append] at hnodup'
        have hinit := hnodup'.1
        rw [List.nodup_append] at hinit
        exact fun hin => hinit.2.2 last hin last (by simp) rfl
      simp only [List.getLast?_append, List.getLast?_singleton, Option.some_or]
        at hprev
      have hhead : list.head = (init ++ [last]).head? := by
        cases init <;> simpa using hfirst
      cases after with
      | nil =>
          have htail : list.tail = some waiter := by simpa using hlast
          simp only [List.head?_nil] at hnext
          constructor
          · refine ⟨?_, ?_, ?_, hnodup'⟩
            · simpa [remove, hprev, hnext, htail] using hhead
            · simp [remove, hprev, hnext, htail]
            · simpa [remove, hprev, hnext, htail] using
                hbefore.setNext_last hlastMem none
          · simp only [remove, hprev, hnext]
            exact SameOutside.setNext heap (by simp) none
      | cons second rest =>
          simp only [List.head?_cons] at hnext
          have hsplit := hnodup'
          rw [List.nodup_append] at hsplit
          have hsecondMem : second ∉ rest := (List.nodup_cons.mp hsplit.2.1).1
          have hlastAfter : last ∉ second :: rest := by
            intro hin
            exact hsplit.2.2 last (by simp) last hin rfl
          have hsecondBefore : second ∉ init ++ [last] := by
            intro hin
            exact hsplit.2.2 second hin second (by simp) rfl
          constructor
          · refine ⟨?_, ?_, ?_, hnodup'⟩
            · cases init <;> simpa [remove, hprev, hnext] using hhead
            · simpa [remove, hprev, hnext] using hlast
            · have hleft := (hbefore.setNext_last hlastMem
                (some second)).setPrev_of_notMem hsecondBefore (some last)
              have hright := (hafter.setNext_of_notMem hlastAfter
                (some second)).setPrev_head hsecondMem (some last)
              simp only [remove, hprev, hnext]
              rw [segment_append]
              exact ⟨by simpa using hleft, by simpa using hright⟩
          · simp only [remove, hprev, hnext]
            exact (SameOutside.setNext heap (by simp) _).trans
              (SameOutside.setPrev _ (by simp) _)

/-- Removing a waiter with null links that is not a member does nothing. -/
theorem remove_of_null {heap : WaiterHeap τ κ} {list : WaiterList τ}
    {waiters : List τ} {waiter : τ} (hold : list.Contains heap waiters)
    (hmem : waiter ∉ waiters) (hnext : (heap waiter).next = none)
    (hprev : (heap waiter).prev = none) :
    remove heap list waiter = (heap, list) := by
  have hhead : list.head ≠ some waiter := by
    rw [hold.first_eq]
    exact fun heq => hmem (List.mem_of_head? heq)
  have htail : list.tail ≠ some waiter := by
    rw [hold.last_eq]
    exact fun heq => hmem (List.mem_of_getLast? heq)
  simp [remove, hnext, hprev, hhead, htail]

/-! ## Splitting -/

omit [DecidableEq τ] in
theorem keepHead_spec {heap : WaiterHeap τ κ} {before : Option τ}
    {waiters : List τ} (hseg : Segment heap before waiters none) (count : ℕ) :
    keepHead heap count waiters.head? = (waiters.drop count).head? := by
  induction waiters generalizing before count with
  | nil => simp [keepHead]
  | cons waiter rest ih =>
      cases count with
      | zero => simp [keepHead]
      | succ count =>
          obtain ⟨-, hnext, hrest⟩ := hseg
          have hstep : (heap waiter).next = rest.head? := by simpa using hnext
          simpa [keepHead, hstep] using ih hrest count

/-- `pop_front_many` splits the list after `count` waiters, or takes all of
it. -/
theorem popFrontMany_spec {heap : WaiterHeap τ κ} {list : WaiterList τ}
    {waiters : List τ} (hold : list.Contains heap waiters) (count : ℕ) :
    ∃ heap' kept popped, popFrontMany heap list count = (heap', kept, popped) ∧
      kept.Contains heap' (back count waiters) ∧
      popped.Contains heap' (front count waiters) ∧
      SameOutside heap heap' {waiter | waiter ∈ waiters} := by
  by_cases hcount : count = usizeMax
  · have hfront : front count waiters = waiters := by simp [front, hcount]
    have hback : back count waiters = [] := by simp [back, hcount]
    rw [hfront, hback]
    exact ⟨heap, new, list, by simp [popFrontMany, hcount], holds_nil heap, hold,
      SameOutside.refl heap _⟩
  have hfront : front count waiters = waiters.take count := by simp [front, hcount]
  have hback : back count waiters = waiters.drop count := by simp [back, hcount]
  rw [hfront, hback]
  unfold popFrontMany
  rw [if_neg hcount]
  by_cases hall : waiters.length ≤ count
  · have hdrop : waiters.drop count = [] := List.drop_eq_nil_of_le hall
    have htake : waiters.take count = waiters := List.take_of_length_le hall
    rw [hdrop, htake]
    refine ⟨heap, new, list, ?_, holds_nil heap, hold, SameOutside.refl heap _⟩
    have hkeep : keepHead heap count list.head = none := by
      rw [hold.first_eq, keepHead_spec hold.segment, hdrop]
      rfl
    simp [hkeep]
  · obtain ⟨keep, rest, hdrop⟩ : ∃ keep rest, waiters.drop count = keep :: rest := by
      cases hdrop : waiters.drop count with
      | nil => exact absurd (List.drop_eq_nil_iff.mp hdrop) hall
      | cons keep rest => exact ⟨keep, rest, rfl⟩
    have hkeep : keepHead heap count list.head = some keep := by
      rw [hold.first_eq, keepHead_spec hold.segment, hdrop]
      rfl
    have hsplit : waiters = waiters.take count ++ keep :: rest := by
      rw [← hdrop, List.take_append_drop]
    have hseg := hold.segment
    have hnodup := hold.nodup
    have hlast := hold.last_eq
    have hfirst := hold.first_eq
    rw [hsplit] at hseg hnodup hlast hfirst
    obtain ⟨hprev, -⟩ := segment_at hseg
    rw [segment_append] at hseg
    obtain ⟨hleft, hright⟩ := hseg
    rw [List.nodup_append] at hnodup
    obtain ⟨hnodupLeft, hnodupRight, hapart⟩ := hnodup
    generalize htaken : waiters.take count = taken at *
    cases taken using List.reverseRecOn with
    | nil =>
        -- count = 0: nothing is taken
        refine ⟨heap, list, new, ?_, ?_, holds_nil heap, SameOutside.refl heap _⟩
        · simp only [List.getLast?_nil] at hprev
          simp [hkeep, hprev]
        · rw [hdrop]
          exact ⟨by simpa using hfirst, by simpa using hlast,
            by simpa using hright, hnodupRight⟩
    | append_singleton init last =>
        simp only [List.getLast?_append, List.getLast?_singleton, Option.some_or]
          at hprev
        have hlastMem : last ∉ init := by
          rw [List.nodup_append] at hnodupLeft
          exact fun hin => hnodupLeft.2.2 last hin last (by simp) rfl
        have hlastRight : last ∉ keep :: rest := fun hin =>
          hapart last (by simp) last hin rfl
        have hkeepLeft : keep ∉ init ++ [last] := fun hin =>
          hapart keep hin keep (by simp) rfl
        refine ⟨(heap.setNext last none).setPrev keep none,
          ⟨some keep, list.tail⟩, ⟨list.head, some last⟩,
          by simp [hkeep, hprev], ?_, ?_, ?_⟩
        · rw [hdrop]
          refine ⟨rfl, by simpa [List.getLast?_cons] using hlast, ?_, hnodupRight⟩
          exact (hright.setNext_of_notMem hlastRight none).setPrev_head
            (List.nodup_cons.mp hnodupRight).1 none
        · refine ⟨?_, by simp, ?_, hnodupLeft⟩
          · cases init <;> simpa using hfirst
          · exact (hleft.setNext_last hlastMem none).setPrev_of_notMem
              hkeepLeft none
        · rw [hsplit]
          exact (SameOutside.setNext heap (by simp) _).trans
            (SameOutside.setPrev _ (by simp) _)

/-! ## Walking -/

omit [DecidableEq τ] in
theorem iter_spec {heap : WaiterHeap τ κ} {before : Option τ}
    {waiters : List τ} (hseg : Segment heap before waiters none) {fuel : ℕ}
    (hfuel : waiters.length ≤ fuel) :
    iter fuel heap waiters.head? = some waiters := by
  induction waiters generalizing before fuel with
  | nil => cases fuel <;> rfl
  | cons waiter rest ih =>
      obtain ⟨-, hnext, hrest⟩ := hseg
      have hstep : (heap waiter).next = rest.head? := by simpa using hnext
      cases fuel with
      | zero => simp at hfuel
      | succ fuel =>
          simp only [List.length_cons, Nat.add_le_add_iff_right] at hfuel
          simp [iter, hstep, ih hrest hfuel]

omit [DecidableEq τ] in
theorem iterStack_spec {heap : WaiterHeap τ κ} {waiters : List τ}
    (hstack : Stack heap waiters) {fuel : ℕ} (hfuel : waiters.length ≤ fuel) :
    iterStack fuel heap waiters.head? = some waiters := by
  induction waiters generalizing fuel with
  | nil => cases fuel <;> rfl
  | cons waiter below ih =>
      obtain ⟨hprev, hbelow⟩ := hstack
      cases fuel with
      | zero => simp at hfuel
      | succ fuel =>
          simp only [List.length_cons, Nat.add_le_add_iff_right] at hfuel
          simp [iterStack, hprev, ih hbelow hfuel]

/-! ## From the stack to the queues -/

/-- The loop of `from_stack`, with the part above `head` already linked. -/
theorem fromStackLoop_spec {heap : WaiterHeap τ κ} {head : τ}
    {above below : List τ}
    (hdone : Segment heap below.head? (head :: above) none)
    (hstack : Stack heap below) (hnodup : (below.reverse ++ head :: above).Nodup)
    {fuel : ℕ} (hfuel : below.length < fuel) :
    ∃ heap' first, fromStackLoop fuel heap head = some (heap', first) ∧
      some first = (below.reverse ++ head :: above).head? ∧
      Segment heap' none (below.reverse ++ head :: above) none ∧
      SameOutside heap heap' {waiter | waiter ∈ below} := by
  induction below generalizing heap head above fuel with
  | nil =>
      obtain ⟨fuel, rfl⟩ : ∃ more, fuel = more + 1 := ⟨fuel - 1, by simp at hfuel; omega⟩
      have hprev : (heap head).prev = none := hdone.1
      exact ⟨heap, head, by simp [fromStackLoop, hprev], rfl, by simpa using hdone,
        SameOutside.refl heap _⟩
  | cons prev below ih =>
      obtain ⟨fuel, rfl⟩ : ∃ more, fuel = more + 1 := ⟨fuel - 1, by omega⟩
      have hprev : (heap head).prev = some prev := hdone.1
      obtain ⟨hprevPrev, hbelow⟩ := hstack
      have hshape : (prev :: below).reverse ++ head :: above =
          below.reverse ++ prev :: head :: above := by simp
      rw [hshape] at hnodup ⊢
      have hsplit := (List.nodup_append.mp hnodup).2.1
      have hprevAbove : prev ∉ head :: above := (List.nodup_cons.mp hsplit).1
      have hprevBelow : prev ∉ below := by
        intro hin
        exact (List.nodup_append.mp hnodup).2.2 prev (by simpa using hin) prev
          (by simp) rfl
      have hlinked : Segment (heap.setNext prev (some head)) below.head?
          (prev :: head :: above) none :=
        ⟨by simpa using hprevPrev, by simp,
          by simpa using hdone.setNext_of_notMem hprevAbove (some head)⟩
      have hbelow' : Stack (heap.setNext prev (some head)) below :=
        hbelow.congr fun waiter _ => by simp
      obtain ⟨heap', first, hrun, hfirst, hseg, hsame⟩ :=
        ih hlinked hbelow' hnodup
          (show below.length < fuel by simp at hfuel; omega)
      refine ⟨heap', first, by simpa [fromStackLoop, hprev] using hrun, hfirst,
        hseg, ?_⟩
      exact (SameOutside.setNext heap (by simp) _).trans
        (hsame.mono fun waiter hin => List.mem_cons_of_mem prev hin)

/-- `from_stack` turns a stack whose top has a null next link into a list,
oldest waiter first. -/
theorem fromStack_spec {heap : WaiterHeap τ κ} {stack : List τ}
    (hstack : Stack heap stack) (hnodup : stack.Nodup)
    (htop : ∀ top ∈ stack.head?, (heap top).next = none) {fuel : ℕ}
    (hfuel : stack.length ≤ fuel) :
    ∃ heap' list, fromStack fuel heap stack.head? = some (heap', list) ∧
      list.Contains heap' stack.reverse ∧
      SameOutside heap heap' {waiter | waiter ∈ stack} := by
  cases stack with
  | nil =>
      exact ⟨heap, ⟨none, none⟩, rfl, holds_nil heap, SameOutside.refl heap _⟩
  | cons top below =>
      have hdone : Segment heap below.head? [top] none :=
        ⟨hstack.1, by simpa using htop top rfl, trivial⟩
      have hnodup' : (below.reverse ++ [top]).Nodup := by
        simpa using List.nodup_reverse.mpr hnodup
      obtain ⟨heap', first, hrun, hfirst, hseg, hsame⟩ :=
        fromStackLoop_spec hdone hstack.2 hnodup' (Nat.lt_of_succ_le hfuel)
      refine ⟨heap', ⟨some first, some top⟩, by simp [fromStack, hrun], ?_, ?_⟩
      · rw [List.reverse_cons]
        exact ⟨hfirst, by simp, hseg, hnodup'⟩
      · exact hsame.mono fun waiter hin => List.mem_cons_of_mem top hin

variable [DecidableEq κ]

/-- The loop of `enqueue` holds `waiters` in its list and `content` in the
queues. -/
structure Enqueues (heap : WaiterHeap τ κ) (queues : κ → WaiterList τ)
    (list : WaiterList τ) (content : κ → List τ) (waiters : List τ) : Prop where
  queues : ∀ queue, (queues queue).Contains heap (content queue)
  list : list.Contains heap waiters
  apart : ∀ waiter ∈ waiters, ∀ queue, waiter ∉ content queue
  distinct : ∀ queue queue' waiter, waiter ∈ content queue →
    waiter ∈ content queue' → queue = queue'

omit [DecidableEq τ] in
theorem mem_update_content {content : κ → List τ} {goal queue : κ} {waiter other : τ} :
    other ∈ Function.update content goal (content goal ++ [waiter]) queue ↔
      other ∈ content queue ∨ (queue = goal ∧ other = waiter) := by
  by_cases heq : queue = goal
  · subst heq
    simp
  · simp [heq]

/-- One round of the loop moves the head of the list. -/
theorem Enqueues.round {heap : WaiterHeap τ κ} {queues : κ → WaiterList τ}
    {list : WaiterList τ} {content : κ → List τ} {waiter : τ} {rest : List τ}
    (henqueues : Enqueues heap queues list content (waiter :: rest)) {goal : κ}
    (hgoal : (heap waiter).data = goal) :
    ∃ heap₁ list₁ heap₂ pushed, popFront heap list = (heap₁, list₁, some waiter) ∧
      (heap₁ waiter).data = goal ∧
      pushBack heap₁ (queues goal) waiter = some (heap₂, pushed) ∧
      Enqueues heap₂ (Function.update queues goal pushed) list₁
        (Function.update content goal (content goal ++ [waiter])) rest ∧
      SameOutside heap heap₂
        {other | other ∈ waiter :: rest ∨ ∃ queue, other ∈ content queue} := by
  obtain ⟨hqueues, hlist, hapart, hdistinct⟩ := henqueues
  have hrestApart : ∀ other ∈ rest, ∀ queue, other ∉ content queue :=
    fun other hin => hapart other (List.mem_cons_of_mem waiter hin)
  have hself := hapart waiter List.mem_cons_self
  have hwaiter : waiter ∉ rest := (List.nodup_cons.mp hlist.nodup).1
  -- pop the head of the list
  obtain ⟨heap₁, list₁, hpop, hlist₁, hnext, hprev, hsame₁⟩ := popFront_spec hlist
  have hqueues₁ : ∀ queue, (queues queue).Contains heap₁ (content queue) := by
    intro queue
    refine hsame₁.contains ?_ (hqueues queue)
    intro other hother hin
    rcases List.mem_cons.mp hin with rfl | hrest
    · exact hself queue hother
    · exact hrestApart other hrest queue hother
  -- push it on its queue
  obtain ⟨heap₂, pushed, hpush, hpushed, hsame₂⟩ :=
    pushBack_spec (hqueues₁ goal) (hself goal) hnext hprev
  refine ⟨heap₁, list₁, heap₂, pushed, hpop, (hsame₁.data waiter).trans hgoal, hpush,
    ⟨fun queue => ?_, ?_, ?_, ?_⟩, ?_⟩
  · by_cases heq : queue = goal
    · subst heq
      simpa using hpushed
    · simp only [Function.update_of_ne heq]
      refine hsame₂.contains ?_ (hqueues₁ queue)
      intro other hother hin
      rcases List.mem_append.mp hin with hin | hin
      · exact heq (hdistinct queue goal other hother hin)
      · rw [List.mem_singleton.mp hin] at hother
        exact hself queue hother
  · refine hsame₂.contains ?_ hlist₁
    intro other hother hin
    rcases List.mem_append.mp hin with hin | hin
    · exact hrestApart other hother goal hin
    · rw [List.mem_singleton.mp hin] at hother
      exact hwaiter hother
  · intro other hother queue hin
    rcases mem_update_content.mp hin with hin | ⟨-, heq⟩
    · exact hrestApart other hother queue hin
    · exact hwaiter (heq ▸ hother)
  · intro queue queue' other hin hin'
    rcases mem_update_content.mp hin with hin | ⟨hq, rfl⟩ <;>
      rcases mem_update_content.mp hin' with hin' | ⟨hq', heq⟩
    · exact hdistinct queue queue' other hin hin'
    · exact absurd (heq ▸ hin) (hself queue)
    · exact absurd hin' (hself queue')
    · exact hq.trans hq'.symm
  · refine (hsame₁.mono fun other hin => Or.inl hin).trans (hsame₂.mono ?_)
    intro other hin
    rcases List.mem_append.mp hin with hin | hin
    · exact Or.inr ⟨goal, hin⟩
    · exact Or.inl (by simp [List.mem_singleton.mp hin])

/-- The loop of `enqueue` moves every waiter of `list` to the end of the
queue it asks for. -/
theorem enqueueLoop_spec {heap : WaiterHeap τ κ} {queues : κ → WaiterList τ}
    {content : κ → List τ} {list : WaiterList τ} {waiters : List τ}
    (henqueues : Enqueues heap queues list content waiters)
    {fuel : ℕ} (hfuel : waiters.length < fuel) :
    ∃ heap' queues', enqueueLoop fuel heap queues list = some (heap', queues') ∧
      (∀ queue, (queues' queue).Contains heap' (content queue ++
        waiters.filter fun waiter => (heap waiter).data = queue)) ∧
      SameOutside heap heap'
        {waiter | waiter ∈ waiters ∨ ∃ queue, waiter ∈ content queue} := by
  induction waiters generalizing heap queues content list fuel with
  | nil =>
      obtain ⟨fuel, rfl⟩ : ∃ more, fuel = more + 1 := ⟨fuel - 1, by simp at hfuel; omega⟩
      refine ⟨heap, queues, by simp [enqueueLoop, popFront_nil henqueues.list], ?_,
        SameOutside.refl heap _⟩
      simpa using henqueues.queues
  | cons waiter rest ih =>
      obtain ⟨fuel, rfl⟩ : ∃ more, fuel = more + 1 := ⟨fuel - 1, by simp at hfuel; omega⟩
      generalize hgoal : (heap waiter).data = goal
      obtain ⟨heap₁, list₁, heap₂, pushed, hpop, hdata₁, hpush, hround, hsame⟩ :=
        henqueues.round hgoal
      obtain ⟨heap', queues', hrun, hqueues', hsame'⟩ :=
        ih hround (show rest.length < fuel by simp at hfuel; omega)
      refine ⟨heap', queues', by simp [enqueueLoop, hpop, hdata₁, hpush, hrun], ?_, ?_⟩
      · intro queue
        have hcontents := hqueues' queue
        simp only [hsame.data] at hcontents
        by_cases heq : queue = goal
        · subst heq
          simpa [hgoal] using hcontents
        · have hne : ¬ goal = queue := fun h => heq h.symm
          simpa [Function.update_of_ne heq, hgoal, hne] using hcontents
      · refine hsame.trans (hsame'.mono ?_)
        rintro other (hin | ⟨queue, hin⟩)
        · exact Or.inl (List.mem_cons_of_mem waiter hin)
        · rcases mem_update_content.mp hin with hin | ⟨-, rfl⟩
          · exact Or.inr ⟨queue, hin⟩
          · exact Or.inl List.mem_cons_self

omit [DecidableEq κ] in
/-- What `from_stack` hands to the loop. -/
theorem enqueues_fromStack {heap : WaiterHeap τ κ} {queues : κ → WaiterList τ}
    {content : κ → List τ} {stack : List τ}
    (hqueues : ∀ queue, (queues queue).Contains heap (content queue))
    (hstack : Stack heap stack) (hnodup : stack.Nodup)
    (htop : ∀ top ∈ stack.head?, (heap top).next = none)
    (hapart : ∀ waiter ∈ stack, ∀ queue, waiter ∉ content queue)
    (hdistinct : ∀ queue queue' waiter, waiter ∈ content queue →
      waiter ∈ content queue' → queue = queue')
    {fuel : ℕ} (hfuel : stack.length < fuel) :
    ∃ heap' list, fromStack fuel heap stack.head? = some (heap', list) ∧
      Enqueues heap' queues list content stack.reverse ∧
      SameOutside heap heap' {waiter | waiter ∈ stack} := by
  obtain ⟨heap', list, hfrom, hlist, hsame⟩ := fromStack_spec hstack hnodup htop hfuel.le
  refine ⟨heap', list, hfrom, ⟨fun queue => ?_, hlist, fun waiter hin => ?_, hdistinct⟩, hsame⟩
  · exact hsame.contains (fun waiter hin hstack => hapart waiter hstack queue hin)
      (hqueues queue)
  · exact hapart waiter (List.mem_reverse.mp hin)

/-- `RawFutex::enqueue` appends the waiters of the stack to the queues they
ask for, oldest first. -/
theorem enqueue_spec {heap : WaiterHeap τ κ} {queues : κ → WaiterList τ}
    {content : κ → List τ} {stack : List τ}
    (hqueues : ∀ queue, (queues queue).Contains heap (content queue))
    (hstack : Stack heap stack) (hnodup : stack.Nodup)
    (htop : ∀ top ∈ stack.head?, (heap top).next = none)
    (hapart : ∀ waiter ∈ stack, ∀ queue, waiter ∉ content queue)
    (hdistinct : ∀ queue queue' waiter, waiter ∈ content queue →
      waiter ∈ content queue' → queue = queue')
    {fuel : ℕ} (hfuel : stack.length < fuel) :
    ∃ heap' queues', enqueue fuel heap queues stack.head? = some (heap', queues') ∧
      (∀ queue, (queues' queue).Contains heap' (content queue ++
        stack.reverse.filter fun waiter => (heap waiter).data = queue)) ∧
      SameOutside heap heap'
        {waiter | waiter ∈ stack ∨ ∃ queue, waiter ∈ content queue} := by
  obtain ⟨heap₁, list, hfrom, henqueues, hsame₁⟩ :=
    enqueues_fromStack hqueues hstack hnodup htop hapart hdistinct hfuel
  obtain ⟨heap', queues', hloop, hqueues', hsame'⟩ :=
    enqueueLoop_spec henqueues (show stack.reverse.length < fuel by simpa using hfuel)
  refine ⟨heap', queues', by simp [enqueue, hfrom, hloop], ?_, ?_⟩
  · intro queue
    have hcontents := hqueues' queue
    simp only [hsame₁.data] at hcontents
    exact hcontents
  · refine (hsame₁.mono fun waiter hin => Or.inl hin).trans (hsame'.mono ?_)
    rintro waiter (hin | hin)
    · exact Or.inl (List.mem_reverse.mp hin)
    · exact Or.inr hin

end AsyncMutex.WaiterList

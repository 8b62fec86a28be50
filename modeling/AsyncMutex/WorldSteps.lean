import AsyncMutex.WorldInvariant

/-!
# The steps of the futexes

A notifier takes waiters from their queues, and wakes them or moves them to
another futex.  With these steps every step keeps the invariant, and every
reachable world has it.
-/

namespace AsyncMutex

namespace World

namespace Inv

variable {τ φ κ α ω : Type} [DecidableEq τ] [DecidableEq φ] [DecidableEq κ]
  {world : ListWorld τ φ κ α ω} {place : τ → Place τ φ κ}

/-! ## Notifying -/

theorem cmpxchgWeak [DecidableEq α] (hinv : Inv world place) {futex : φ}
    {current : FutexAtom τ α} {new : α} {spurious : Bool}
    {outcome : Outcome (ListStore τ φ κ) τ φ α ω}
    (hnext : world.cmpxchgWeak futex current new spurious = some outcome) :
    Inv outcome.world place := by
  unfold World.cmpxchgWeak at hnext
  split at hnext <;> cases hnext
  · exact hinv.setAtom futex new
  · exact hinv

omit [DecidableEq κ] in
theorem lock (hinv : Inv world place) {task : τ} {futex : φ}
    {outcome : Outcome (ListStore τ φ κ) τ φ α ω}
    (hnext : world.lock task futex = some outcome) : Inv outcome.world place := by
  unfold World.lock at hnext
  split at hnext
  · cases hnext
    exact hinv
  · split at hnext
    case isFalse => cases hnext
    case isTrue hwriter =>
      cases hnext
      obtain ⟨hplaces, htasks, hpopped, hwriters, hexcluded, hborrowed,
        hstoring, hlinking⟩ := hinv
      refine ⟨hplaces, htasks, ?_, hwriters, ?_, ?_, ?_, ?_⟩ <;>
        simp only [Function.update_apply] <;> grind

theorem unlock (hinv : Inv world place) {task : τ} {futex : φ}
    (hbusy : world.busy task = .none)
    {outcome : Outcome (ListStore τ φ κ) τ φ α ω}
    (hnext : world.unlock task futex = some outcome) :
    Inv outcome.world place := by
  unfold World.unlock at hnext
  split at hnext
  case isFalse =>
    cases hnext
    exact hinv
  case isTrue hguard =>
    cases hnext
    obtain ⟨hread, hborrow, hhandle, hempty⟩ := hguard
    have hlist : world.store.list task = [] := by
      simpa [FutexStore.listEmpty] using hempty
    have hfree : ∀ waiter, (place waiter).holder ≠ some task := by
      intro waiter hholder
      have hhand := hinv.places.hand task waiter
      have hlists := hinv.places.list task waiter
      cases hplace : place waiter <;> simp [hplace] at hholder <;> simp_all
    obtain ⟨hplaces, htasks, hpopped, hwriters, hexcluded, hborrowed,
      hstoring, hlinking⟩ := hinv
    refine ⟨hplaces, htasks, ?_, hwriters, ?_, ?_, ?_, ?_⟩ <;>
      simp only [Function.update_apply] <;> grind

omit [DecidableEq κ] in
theorem borrow (hinv : Inv world place) {task : τ} {futex : φ}
    {outcome : Outcome (ListStore τ φ κ) τ φ α ω}
    (hnext : world.borrow task futex = some outcome) :
    Inv outcome.world place := by
  unfold World.borrow at hnext
  split at hnext
  · cases hnext
    exact hinv
  case isFalse hread =>
    split at hnext <;> cases hnext
    · obtain ⟨hplaces, htasks, hpopped, hwriters, hexcluded, hborrowed,
        hstoring, hlinking⟩ := hinv
      refine ⟨hplaces, htasks, hpopped, hwriters, hexcluded, ?_, hstoring,
        hlinking⟩
      simp only [Function.update_apply]
      grind
    · exact hinv

omit [DecidableEq κ] in
theorem release (hinv : Inv world place) {task : τ} {futex : φ}
    {outcome : Outcome (ListStore τ φ κ) τ φ α ω}
    (hnext : world.release task futex = some outcome) :
    Inv outcome.world place := by
  unfold World.release at hnext
  split at hnext <;> cases hnext
  · obtain ⟨hplaces, htasks, hpopped, hwriters, hexcluded, hborrowed, hstoring,
      hlinking⟩ := hinv
    refine ⟨hplaces, htasks, hpopped, hwriters, hexcluded, ?_, hstoring,
      hlinking⟩
    simp only [Function.update_apply]
    grind
  · exact hinv

theorem cmpxchgEnqueueWeak [DecidableEq α] (hinv : Inv world place) {task : τ} {futex : φ}
    {current : FutexAtom τ α} {new : α} {spurious : Bool}
    {outcome : Outcome (ListStore τ φ κ) τ φ α ω}
    (hnext : world.cmpxchgEnqueueWeak task futex current new spurious =
      some outcome) : ∃ place', Inv outcome.world place' := by
  unfold World.cmpxchgEnqueueWeak at hnext
  split at hnext
  · cases hnext
    exact ⟨place, hinv⟩
  · split at hnext
    · rw [Option.map_eq_some_iff] at hnext
      obtain ⟨store, hstore, rfl⟩ := hnext
      exact ⟨_, (hinv.enqueue hstore).setAtom futex new⟩
    · cases hnext
      exact ⟨place, hinv⟩

theorem pop (hinv : Inv world place) {task : τ} {futex : φ} {queue : κ}
    {outcome : Outcome (ListStore τ φ κ) τ φ α ω}
    (hnext : world.pop task futex queue = some outcome) :
    ∃ place', Inv outcome.world place' := by
  unfold World.pop at hnext
  split at hnext
  case isFalse =>
    cases hnext
    exact ⟨place, hinv⟩
  case isTrue hguard =>
    obtain ⟨hborrow, hhandle⟩ := hguard
    cases hnext
    have hread := hinv.borrowed futex task hborrow
    have hlist : (FutexStore.pop world.store futex queue).2.list =
      world.store.list := rfl
    cases hhead : (world.store.queues futex queue).head? with
    | none =>
        have hplaces' := hinv.places.pop_none hhandle hhead
        refine ⟨place, { hinv with places := ?_ }⟩
        simpa [World.setHandle, FutexStore.pop, hhead] using hplaces'
    | some waiter =>
        have hmem : waiter ∈ world.store.queues futex queue :=
          List.mem_of_mem_head? hhead
        have hplace := (hinv.places.queues futex queue waiter).mp hmem
        have hplaces' := hinv.places.pop_some hhandle hhead
        have htask := hinv.task waiter
        rw [hplace] at htask
        have howner : world.owner waiter = futex := htask.owned futex rfl
        have htask' : TaskInv (Place.hand task : Place τ φ κ)
            (world.phase waiter) (world.waker waiter) (world.owner waiter) :=
          { htask with
            waits := fun _ => htask.waits (by simp)
            asleep := fun _ => htask.asleep (by simp)
            woken := by simp
            owned := by simp
            flipped := by simp }
        obtain ⟨-, htasks, hpopped, hwriters, hexcluded, hborrowed, hstoring,
          hlinking⟩ := hinv
        refine ⟨Function.update place waiter (.hand task), ⟨?_, ?_, ?_, hwriters,
          hexcluded, hborrowed, hstoring, hlinking⟩⟩
        · simpa [World.setHandle, FutexStore.pop, hhead] using hplaces'
        · simp only [World.setHandle, Function.update_apply]
          grind
        · simp only [World.setHandle, Function.update_apply]
          grind [Place.holder]

theorem popMany (hinv : Inv world place) {task : τ} {futex : φ} {queue : κ}
    {count : ℕ} (hbusy : world.busy task = .none)
    {outcome : Outcome (ListStore τ φ κ) τ φ α ω}
    (hnext : world.popMany task futex count queue = some outcome) :
    ∃ place', Inv outcome.world place' := by
  unfold World.popMany at hnext
  split at hnext
  case isFalse =>
    cases hnext
    exact ⟨place, hinv⟩
  case isTrue hguard =>
    obtain ⟨hborrow, hempty⟩ := hguard
    cases hnext
    have hread := hinv.borrowed futex task hborrow
    have hlist : world.store.list task = [] := by
      simpa [FutexStore.listEmpty] using hempty
    have hplaces' := hinv.places.popMany hlist futex queue count
    have hplace : ∀ waiter, waiter ∈ WaiterList.front count (world.store.queues futex queue) →
        place waiter = .queue futex queue := by
      intro waiter hmem
      rw [← hinv.places.queues,
        ← WaiterList.front_append_back count (world.store.queues futex queue)]
      exact List.mem_append_left _ hmem
    have howner : ∀ waiter, waiter ∈ WaiterList.front count (world.store.queues futex queue) →
        world.owner waiter = futex := fun waiter hmem =>
      (hinv.task waiter).owned futex (by rw [hplace waiter hmem]; rfl)
    refine ⟨_, hplaces', fun waiter => ?_, ?_, hinv.writer, hinv.excluded,
      hinv.borrowed, ?_, ?_⟩
    · have htask := hinv.task waiter
      unfold Places.poppedMany
      split
      case isTrue hmem =>
        rw [hplace waiter hmem] at htask
        exact { htask with
          waits := fun _ => htask.waits (by simp)
          asleep := fun _ => htask.asleep (by simp)
          woken := by simp
          owned := by simp
          flipped := by simp }
      case isFalse => exact htask
    · have hpopped := hinv.popped
      simp only [Places.poppedMany]
      grind [Place.holder]
    · have hstoring := hinv.storing
      simp only [FutexStore.popMany, Function.update_apply]
      grind
    · have hlinking := hinv.linking
      simp only [FutexStore.popMany, Function.update_apply]
      grind

theorem next (hinv : Inv world place) {task : τ}
    (hbusy : world.busy task = .none)
    {outcome : Outcome (ListStore τ φ κ) τ φ α ω}
    (hnext : world.next task = some outcome) :
    ∃ place', Inv outcome.world place' := by
  unfold World.next at hnext
  split at hnext
  case isFalse =>
    cases hnext
    exact ⟨place, hinv⟩
  case isTrue hhandle =>
    cases hnext
    cases hhead : (world.store.list task).head? with
    | none =>
        have hplaces' := hinv.places.listPop_none hhandle hhead
        have hnil := List.head?_eq_none_iff.mp hhead
        have hlist : Function.update world.store.list task
            (world.store.list task).tail = world.store.list := by
          have htail : (world.store.list task).tail = world.store.list task := by
            simp [hnil]
          rw [htail, Function.update_eq_self]
        refine ⟨place, { hinv with places := ?_, storing := ?_, linking := ?_ }⟩
        · simpa [World.setHandle, FutexStore.listPop, hhead] using hplaces'
        · simpa [World.setHandle, hlist] using hinv.storing
        · simpa [World.setHandle, hlist] using hinv.linking
    | some waiter =>
        have hmem : waiter ∈ world.store.list task := List.mem_of_mem_head? hhead
        have hplace := (hinv.places.list task waiter).mp hmem
        have hplaces' := hinv.places.listPop_some hhandle hhead
        have htask := hinv.task waiter
        rw [hplace] at htask
        have htask' : TaskInv (Place.hand task : Place τ φ κ)
            (world.phase waiter) (world.waker waiter) (world.owner waiter) :=
          { htask with
            waits := fun _ => htask.waits (by simp)
            asleep := fun _ => htask.asleep (by simp)
            woken := by simp
            owned := by simp
            flipped := by simp }
        have hread := hinv.popped waiter task (by rw [hplace]; rfl)
        obtain ⟨-, htasks, hpopped, hwriters, hexcluded, hborrowed, hstoring,
          hlinking⟩ := hinv
        refine ⟨Function.update place waiter (.hand task), ⟨?_, ?_, ?_, hwriters,
          hexcluded, hborrowed, ?_, ?_⟩⟩
        · simpa [World.setHandle, FutexStore.listPop, hhead] using hplaces'
        · simp only [World.setHandle, Function.update_apply]
          grind
        · simp only [World.setHandle, Function.update_apply]
          grind [Place.holder]
        · simp only [World.setHandle, Function.update_apply]
          grind
        · simp only [World.setHandle, Function.update_apply]
          grind

omit [DecidableEq τ] [DecidableEq φ] [DecidableEq κ] in
/-- The notifier holds a waiter that sleeps. -/
theorem asleep_of_handle (hinv : Inv world place) {task waiter : τ}
    (hhandle : world.handle task = some waiter) :
    ∃ waker, world.waker waiter = .waiting waker := by
  have hplace := (hinv.places.hand task waiter).mp hhandle
  exact (hinv.task waiter).asleep (by simp [hplace])

omit [DecidableEq φ] [DecidableEq κ] in
theorem wake (hinv : Inv world place) {task : τ}
    {outcome : Outcome (ListStore τ φ κ) τ φ α ω}
    (hnext : world.wake task = some outcome) :
    ∃ place', Inv outcome.world place' := by
  unfold World.wake at hnext
  split at hnext
  case h_1 =>
    cases hnext
    exact ⟨place, hinv⟩
  case h_2 waiter hhandle =>
    obtain ⟨waker, hwaker⟩ := hinv.asleep_of_handle hhandle
    rw [hwaker] at hnext
    cases hnext
    have hplace := (hinv.places.hand task waiter).mp hhandle
    have htask := hinv.task waiter
    have hwaits : (world.phase waiter).Waits := htask.waits (by simp [hplace])
    have htask' : TaskInv (.nowhere : Place τ φ κ) (world.phase waiter) .done
        (world.owner waiter) := by
      refine { htask with
        waits := by simp
        asleep := by simp
        woken := fun _ _ => rfl
        owned := by simp
        flipped := by simp
        registered := by simp
        polling := fun newWaker seen hpolling =>
          ⟨(htask.polling newWaker seen hpolling).1, fun _ => rfl⟩
        fresh := fun henter => ?_ }
      rw [henter] at hwaits
      exact hwaits.elim
    obtain ⟨hplaces, htasks, hpopped, hwriters, hexcluded, hborrowed, hstoring,
      hlinking⟩ := hinv
    refine ⟨Function.update place waiter .nowhere, ⟨hplaces.woken hhandle, ?_, ?_,
      hwriters, hexcluded, hborrowed, ?_, ?_⟩⟩ <;>
      simp only [World.setBusy, World.setHandle, World.setWaker,
        Function.update_apply] <;>
      grind [Place.holder]

theorem requeue (hinv : Inv world place) {task : τ} {futex : φ}
    {outcome : Outcome (ListStore τ φ κ) τ φ α ω}
    (hnext : world.requeue task futex = some outcome) :
    Inv outcome.world place := by
  unfold World.requeue at hnext
  split at hnext
  · cases hnext
    exact hinv
  case isFalse hread =>
    split at hnext <;> cases hnext
    · exact hinv
    case isFalse hempty =>
      have hne : world.store.list task ≠ [] := by
        simpa [FutexStore.listEmpty] using hempty
      rw [not_not] at hread
      obtain ⟨hplaces, htasks, hpopped, hwriters, hexcluded, hborrowed,
        hstoring, hlinking⟩ := hinv
      refine ⟨hplaces, htasks, hpopped, hwriters, hexcluded, hborrowed, ?_, ?_⟩
      · intro other futex' waiter hbusy
        by_cases hother : other = task
        · subst hother
          simp only [World.setBusy, Function.update_self, Busy.requeueStore.injEq,
            FutexStore.listHead] at hbusy
          obtain ⟨rfl, rfl⟩ := hbusy
          exact ⟨hread, hne, [], world.store.list other, rfl, rfl, by simp⟩
        · simp only [World.setBusy, Function.update_of_ne hother] at hbusy
          exact hstoring other futex' waiter hbusy
      · simp only [World.setBusy, Function.update_apply]
        grind

/-- `requeue` stores the owner of the next waiter of its handle list. -/
theorem storeOwner (hinv : Inv world place) {task waiter : τ} {futex : φ}
    (hbusy : world.busy task = .requeueStore futex (some waiter)) :
    Inv { world.setBusy task (.requeueStore futex
          (FutexStore.listNext world.store task waiter)) with
        owner := Function.update world.owner waiter futex } place := by
  obtain ⟨hread, hne, stored, rest, hsplit, hhead, howner⟩ :=
    hinv.storing task futex (some waiter) hbusy
  obtain ⟨after, rfl⟩ := List.head?_eq_some_iff.mp hhead
  have hmem : waiter ∈ world.store.list task := by simp [hsplit]
  have hplace := (hinv.places.list task waiter).mp hmem
  have hnotStored : waiter ∉ stored := by
    have hnodup := hinv.places.listNodup task
    rw [hsplit, List.nodup_append] at hnodup
    exact fun hin => hnodup.2.2 waiter hin waiter List.mem_cons_self rfl
  have hnext : FutexStore.listNext world.store task waiter = after.head? := by
    simp only [FutexStore.listNext, hsplit]
    exact ListStore.successor_append hnotStored
  have hothers : ∀ other, other ≠ task → waiter ∉ world.store.list other := by
    intro other hother hin
    have hplace' := (hinv.places.list other waiter).mp hin
    rw [hplace] at hplace'
    exact hother (Place.list.inj hplace').symm
  -- no drop has reached the waiter: its owner is read locked by the notifier
  have hflips : (world.phase waiter).flips = none := by
    cases hflip : (world.phase waiter).flips with
    | none => rfl
    | some owner =>
        have hown := (hinv.task waiter).flips owner hflip
        have hwriter : world.writer (world.owner waiter) = some waiter := by
          rw [hinv.writer, hown]
          cases hphase : world.phase waiter <;> simp [hphase, Phase.flips] at hflip <;>
            simp [Phase.writes, hflip]
        have hholder := hinv.holder_of_writer hwriter
        simp [hplace] at hholder
  refine { hinv with
    task := fun other => ?_
    popped := fun other notifier hholder => ?_
    storing := fun notifier futex' waiter' hbusy' => ?_
    linking := fun notifier futex' current hbusy' => ?_ }
  · have htask := hinv.task other
    by_cases hother : other = waiter
    · subst hother
      simp only [Function.update_self]
      exact { htask with
        owned := by simp [hplace]
        flips := by simp [World.setBusy, hflips] }
    · simpa [World.setBusy, hother] using htask
  · by_cases hother : other = waiter
    · subst hother
      rw [hplace] at hholder
      cases hholder
      simpa [World.setBusy] using hread
    · simpa [World.setBusy, hother] using hinv.popped other notifier hholder
  · by_cases hnotifier : notifier = task
    · subst hnotifier
      simp only [World.setBusy, Function.update_self, Busy.requeueStore.injEq] at hbusy'
      obtain ⟨rfl, rfl⟩ := hbusy'
      refine ⟨hread, hne, stored ++ [waiter], after, by simpa using hsplit,
        hnext.symm, fun other hother => ?_⟩
      by_cases heq : other = waiter
      · simp [heq]
      · have hstored : other ∈ stored := by simpa [heq] using hother
        simpa [heq] using howner other hstored
    · simp only [World.setBusy, Function.update_of_ne hnotifier] at hbusy'
      obtain ⟨hread', hne', stored', rest', hsplit', hrest', howner'⟩ :=
        hinv.storing notifier futex' waiter' hbusy'
      refine ⟨hread', hne', stored', rest', hsplit', hrest', fun other hother => ?_⟩
      have heq : other ≠ waiter := by
        rintro rfl
        exact hothers notifier hnotifier (by simp [hsplit', hother])
      simpa [heq] using howner' other hother
  · by_cases hnotifier : notifier = task
    · subst hnotifier
      simp [World.setBusy] at hbusy'
    · simp only [World.setBusy, Function.update_of_ne hnotifier] at hbusy'
      obtain ⟨hread', hne', howner'⟩ := hinv.linking notifier futex' current hbusy'
      refine ⟨hread', hne', fun other hother => ?_⟩
      have heq : other ≠ waiter := by
        rintro rfl
        exact hothers notifier hnotifier hother
      simpa [heq] using howner' other hother

omit [DecidableEq φ] [DecidableEq κ] in
/-- `requeue` has stored every owner and goes to its compare-exchange. -/
theorem toLink (hinv : Inv world place) {task : τ} {futex : φ}
    {current' : FutexAtom τ α}
    (hbusy : world.busy task = .requeueStore futex none ∨
      ∃ current, world.busy task = .requeueLink futex current) :
    Inv (world.setBusy task (.requeueLink futex current')) place := by
  have hready : task ∈ world.readers futex ∧ world.store.list task ≠ [] ∧
      ∀ other ∈ world.store.list task, world.owner other = futex := by
    rcases hbusy with hbusy | ⟨current, hbusy⟩
    · obtain ⟨hread, hne, stored, rest, hsplit, hhead, howner⟩ :=
        hinv.storing task futex none hbusy
      rw [List.head?_eq_none_iff] at hhead
      subst hhead
      rw [List.append_nil] at hsplit
      exact ⟨hread, hne, fun other hother => howner other (hsplit ▸ hother)⟩
    · exact hinv.linking task futex current hbusy
  obtain ⟨hplaces, htasks, hpopped, hwriters, hexcluded, hborrowed, hstoring,
    hlinking⟩ := hinv
  refine ⟨hplaces, htasks, hpopped, hwriters, hexcluded, hborrowed, ?_, ?_⟩ <;>
    simp only [World.setBusy, Function.update_apply] <;> grind

/-- The compare-exchange of `requeue` succeeds. -/
theorem pushList (hinv : Inv world place) {task : τ} {futex : φ}
    {current : FutexAtom τ α}
    (hbusy : world.busy task = .requeueLink futex current) :
    Inv { world.setBusy task .none with
        store := FutexStore.listPush world.store futex task }
      (Places.pushedList futex task place) := by
  obtain ⟨hread, hne, howner⟩ := hinv.linking task futex current hbusy
  refine ⟨hinv.places.listPush futex task, fun waiter => ?_, ?_, hinv.writer,
    hinv.excluded, hinv.borrowed, ?_, ?_⟩
  · have htask := hinv.task waiter
    unfold Places.pushedList
    split
    case isFalse => exact htask
    case isTrue hplace =>
      have hown := howner waiter ((hinv.places.list task waiter).mpr hplace)
      have hholder := hinv.popped waiter task (by rw [hplace]; rfl)
      rw [hplace] at htask
      refine { htask with
        waits := fun _ => htask.waits (by simp)
        asleep := fun _ => htask.asleep (by simp)
        woken := by simp
        owned := by simpa using hown
        flipped := fun futex' hphase => ?_ }
      -- a drop past its flip has excluded the notifier
      have hphase' : world.phase waiter = .dropCancel futex' := hphase
      have hown' : world.owner waiter = futex' :=
        (hinv.task waiter).flips futex' (by rw [hphase']; rfl)
      have hwriter : world.writer (world.owner waiter) = some waiter := by
        rw [hinv.writer, hphase', hown']
        rfl
      have hfree := hinv.holder_of_writer hwriter
      simp [hplace] at hfree
  · have hpopped := hinv.popped
    simp only [Places.pushedList, World.setBusy]
    grind [Place.holder]
  · have hstoring := hinv.storing
    simp only [FutexStore.listPush, World.setBusy, Function.update_apply]
    grind
  · have hlinking := hinv.linking
    simp only [FutexStore.listPush, World.setBusy, Function.update_apply]
    grind

variable [DecidableEq ω]

theorem busyStep [DecidableEq α] (hinv : Inv world place) {task : τ} {spurious : Bool}
    {outcome : Outcome (ListStore τ φ κ) τ φ α ω}
    (hnext : world.busyStep task spurious = some outcome) :
    ∃ place', Inv outcome.world place' := by
  unfold World.busyStep at hnext
  split at hnext
  case h_1 => cases hnext
  case h_2 waiter waker hbusy =>
    cases hnext
    refine ⟨place, setBusy ?_ (by simp) (by simp)⟩
    split
    · exact hinv.setLastWaker waiter none
    · exact hinv
  case h_3 futex waiter hbusy =>
    cases hnext
    exact ⟨place, hinv.storeOwner hbusy⟩
  case h_4 futex hbusy =>
    cases hnext
    exact ⟨place, hinv.toLink (.inl hbusy)⟩
  case h_5 futex current hbusy =>
    split at hnext <;> cases hnext
    · exact ⟨_, hinv.pushList hbusy⟩
    · exact ⟨place, hinv.toLink (.inr ⟨current, hbusy⟩)⟩

/-! ## Runs -/

theorem call [DecidableEq α] (hinv : Inv world place) {task : τ} (hbusy : world.busy task = .none)
    {op : Op τ φ κ α} {spurious : Bool} {waker : ω}
    {outcome : Outcome (ListStore τ φ κ) τ φ α ω}
    (hnext : world.call task op spurious waker = some outcome) :
    ∃ place', Inv outcome.world place' := by
  cases op with
  | waiter futex queue => exact ⟨place, hinv.newWaiter hnext⟩
  | load futex =>
      cases hnext
      exact ⟨place, hinv⟩
  | cmpxchgWeak futex current new => exact ⟨place, hinv.cmpxchgWeak hnext⟩
  | cmpxchgWaitWeak futex current new => exact hinv.pollEnter hnext
  | pending =>
      simp only [World.call] at hnext
      split at hnext
      case isTrue hphase =>
        cases hnext
        refine ⟨place, hinv.setPhase (by rw [hphase]; rfl) ?_⟩
        refine (hinv.task task).waiting ?_ trivial ?_ ?_ ?_ <;>
          simp [hphase, Phase.Waits, Phase.flips]
      case isFalse =>
        cases hnext
        exact ⟨place, hinv⟩
  | lock futex => exact ⟨place, hinv.lock hnext⟩
  | unlock futex => exact ⟨place, hinv.unlock hbusy hnext⟩
  | borrow futex => exact ⟨place, hinv.borrow hnext⟩
  | release futex => exact ⟨place, hinv.release hnext⟩
  | cmpxchgEnqueueWeak futex current new => exact hinv.cmpxchgEnqueueWeak hnext
  | isEmpty futex queue =>
      simp only [World.call, World.isEmpty] at hnext
      split at hnext <;> cases hnext <;> exact ⟨place, hinv⟩
  | pop futex queue => exact hinv.pop hnext
  | popMany futex count queue => exact hinv.popMany hbusy hnext
  | count =>
      cases hnext
      exact ⟨place, hinv⟩
  | next => exact hinv.next hbusy hnext
  | wake => exact hinv.wake hnext
  | requeue futex => exact ⟨place, hinv.requeue hnext⟩

theorem step [DecidableEq α] (hinv : Inv world place) {task : τ} {act : Act τ φ κ α ω}
    {outcome : Outcome (ListStore τ φ κ) τ φ α ω}
    (hnext : world.step task act = some outcome) :
    ∃ place', Inv outcome.world place' := by
  cases act with
  | call op spurious waker =>
      simp only [World.step] at hnext
      split at hnext
      case isTrue hrunning => exact hinv.call hrunning.1 hnext
      case isFalse => cases hnext
  | poll waker => exact ⟨place, hinv.poll hnext⟩
  | drop => exact ⟨place, hinv.drop hnext⟩
  | step spurious =>
      simp only [World.step] at hnext
      split at hnext
      · exact hinv.busyStep hnext
      · split at hnext
        case h_1 newWaker seen hphase => exact ⟨place, hinv.pollWaiting hphase hnext⟩
        case h_2 => exact hinv.dropStep hnext

omit [DecidableEq τ] [DecidableEq φ] [DecidableEq κ] [DecidableEq ω] in
theorem initial (queue : κ) (atom : φ → α) (futex : φ) :
    Inv (World.initial (ListStore.empty queue) atom futex : ListWorld τ φ κ α ω)
      fun _ => .nowhere := by
  refine ⟨Places.empty queue, fun task => TaskInv.idle _ _, ?_, ?_, ?_, ?_, ?_, ?_⟩ <;>
    simp [World.initial, Phase.writes]

theorem of_reachable [DecidableEq α] {queue : κ} {atom : φ → α} {futex : φ}
    {world : ListWorld τ φ κ α ω}
    (hreach : (World.machine (ListStore.empty queue) atom futex :
      Machine (ListWorld τ φ κ α ω) _ _).Reachable world) :
    ∃ place, Inv world place := by
  refine hreach.invariant (motive := fun world => ∃ place, Inv world place)
    ⟨_, initial queue atom futex⟩ ?_
  rintro world ⟨task, act⟩ next events - ⟨place, hinv⟩ hnext
  simp only [World.machine, Option.map_eq_some_iff] at hnext
  obtain ⟨outcome, hstep, heq⟩ := hnext
  cases heq
  exact hinv.step hstep

end Inv

end World

end AsyncMutex

import AsyncMutex.Places
import AsyncMutex.World

/-!
# The invariant of the futexes

In every reachable world of plain lists, each waiter whose compare-exchange
succeeded and which is neither woken nor cancelled is in exactly one place.
Its owner names the futex of that place; while a notifier holds the waiter,
the notifier has the read lock of the owner, and that is what the owner check
under the write lock in `WaitFuture::drop` relies on.
-/

namespace AsyncMutex

abbrev ListWorld (τ φ κ α ω : Type) := World (ListStore τ φ κ) τ φ α ω

namespace Phase

variable {τ φ α ω : Type}

/-- The futex whose write lock the drop holds. -/
def writes : Phase τ φ α ω → Option φ
  | .dropCheck owner => some owner
  | .dropRetry owner _ => some owner
  | .dropLoad owner => some owner
  | .dropFlip owner _ => some owner
  | .dropCancel owner => some owner
  | .dropUnlock owner => some owner
  | _ => none

/-- The futex that the drop found to be the owner of its waiter. -/
def flips : Phase τ φ α ω → Option φ
  | .dropLoad owner => some owner
  | .dropFlip owner _ => some owner
  | .dropCancel owner => some owner
  | _ => none

/-- The future is being dropped. -/
def Drops : Phase τ φ α ω → Prop
  | .dropLock _ => True
  | .dropFinish => True
  | phase => phase.writes ≠ none

/-- The compare-exchange succeeded and the future is not done. -/
def Live : Phase τ φ α ω → Prop
  | .idle => False
  | .enter => False
  | _ => True

/-- The waiter was pushed, and no drop has removed it. -/
def Waits : Phase τ φ α ω → Prop
  | .idle => False
  | .enter => False
  | .dropUnlock _ => False
  | .dropFinish => False
  | _ => True

end Phase

/-- What the place of a waiter says about the future that waits on it. -/
structure TaskInv {τ φ κ α ω : Type} (place : Place τ φ κ)
    (phase : Phase τ φ α ω) (waker : WaiterWaker ω) (owner : φ) : Prop where
  waits : place ≠ .nowhere → phase.Waits
  asleep : place ≠ .nowhere → ∃ current, waker = .waiting current
  woken : phase.Waits → place = .nowhere → waker = .done
  owned : ∀ futex, place.futex = some futex → owner = futex
  flips : ∀ futex, phase.flips = some futex → owner = futex
  flipped : ∀ futex, phase = .dropCancel futex → place ≠ .inbox futex
  registered : phase.Live → waker ≠ .none
  polling : ∀ newWaker seen, phase = .polling newWaker seen →
    seen ≠ .none ∧ (seen = .done → waker = .done)
  fresh : phase = .enter → waker ≠ .done

namespace TaskInv

variable {τ φ κ α ω : Type} {place : Place τ φ κ} {phase : Phase τ φ α ω}
  {waker : WaiterWaker ω} {owner : φ}

/-- No future waits on the waiter. -/
theorem idle (waker : WaiterWaker ω) (owner : φ) :
    TaskInv (.nowhere : Place τ φ κ) (.idle : Phase τ φ α ω) waker owner := by
  constructor <;> simp [Phase.Waits, Phase.flips, Phase.Live]

/-- The future goes on with its waiter where it is. -/
theorem waiting (htask : TaskInv place phase waker owner) (hphase : phase.Waits)
    {phase' : Phase τ φ α ω} (hphase' : phase'.Waits)
    (hpolling : ∀ newWaker seen, phase' = .polling newWaker seen → seen = waker)
    (hflips : ∀ futex, phase'.flips = some futex → owner = futex)
    (hflipped : ∀ futex, phase' = .dropCancel futex → place ≠ .inbox futex) :
    TaskInv place phase' waker owner := by
  have hlive : phase.Live := by
    cases phase <;> first | exact hphase | trivial
  refine { htask with
    waits := fun _ => hphase'
    woken := fun _ => htask.woken hphase
    flips := hflips
    flipped := hflipped
    registered := fun _ => htask.registered hlive
    polling := fun newWaker seen heq => ?_
    fresh := fun heq => ?_ }
  · rw [hpolling newWaker seen heq]
    exact ⟨htask.registered hlive, id⟩
  · rw [heq] at hphase'
    exact hphase'.elim

end TaskInv

namespace World

variable {τ φ κ α ω : Type}

/-- The invariant, with the place of every waiter. -/
structure Inv (world : ListWorld τ φ κ α ω) (place : τ → Place τ φ κ) :
    Prop where
  places : Places world.store world.handle place
  task : ∀ task, TaskInv (place task) (world.phase task) (world.waker task)
    (world.owner task)
  popped : ∀ waiter task, (place waiter).holder = some task →
    task ∈ world.readers (world.owner waiter)
  writer : ∀ futex task,
    world.writer futex = some task ↔ (world.phase task).writes = some futex
  excluded : ∀ futex task, world.writer futex = some task →
    world.readers futex = ∅
  borrowed : ∀ futex task, world.borrowed futex = some task →
    task ∈ world.readers futex
  storing : ∀ task futex waiter,
    world.busy task = .requeueStore futex waiter →
      task ∈ world.readers futex ∧ world.store.list task ≠ [] ∧
      ∃ stored rest, world.store.list task = stored ++ rest ∧
        rest.head? = waiter ∧ ∀ other ∈ stored, world.owner other = futex
  linking : ∀ task futex current,
    world.busy task = .requeueLink futex current →
      task ∈ world.readers futex ∧ world.store.list task ≠ [] ∧
      ∀ other ∈ world.store.list task, world.owner other = futex

namespace Inv

variable [DecidableEq τ] {world : ListWorld τ φ κ α ω} {place : τ → Place τ φ κ}

/-! ## Changes of one task -/

theorem setPhase (hinv : Inv world place) {task : τ} {phase : Phase τ φ α ω}
    (hwrites : phase.writes = (world.phase task).writes)
    (htask : TaskInv (place task) phase (world.waker task) (world.owner task)) :
    Inv (world.setPhase task phase) place := by
  refine { hinv with task := fun other => ?_, writer := fun futex other => ?_ }
  · by_cases hother : other = task
    · subst hother
      simpa [World.setPhase] using htask
    · simpa [World.setPhase, hother] using hinv.task other
  · by_cases hother : other = task
    · subst hother
      simpa [World.setPhase, hwrites] using hinv.writer futex other
    · simpa [World.setPhase, hother] using hinv.writer futex other

theorem setWaker (hinv : Inv world place) {task : τ} {waker : WaiterWaker ω}
    (htask : TaskInv (place task) (world.phase task) waker (world.owner task)) :
    Inv (world.setWaker task waker) place := by
  refine { hinv with task := fun other => ?_ }
  by_cases hother : other = task
  · subst hother
    simpa [World.setWaker] using htask
  · simpa [World.setWaker, hother] using hinv.task other

theorem setFuture (hinv : Inv world place) {task : τ} {waker : WaiterWaker ω}
    {phase : Phase τ φ α ω} (hwrites : phase.writes = (world.phase task).writes)
    (htask : TaskInv (place task) phase waker (world.owner task)) :
    Inv ((world.setWaker task waker).setPhase task phase) place := by
  obtain ⟨hplaces, htasks, hpopped, hwriters, hexcluded, hborrowed, hstoring,
    hlinking⟩ := hinv
  refine ⟨hplaces, ?_, hpopped, ?_, hexcluded, hborrowed, hstoring, hlinking⟩ <;>
    simp only [World.setPhase, World.setWaker, Function.update_apply] <;> grind

theorem setBusy (hinv : Inv world place) {task : τ} {busy : Busy τ φ α ω}
    (hstoring : ∀ futex waiter, busy ≠ .requeueStore futex waiter)
    (hlinking : ∀ futex current, busy ≠ .requeueLink futex current) :
    Inv (world.setBusy task busy) place := by
  refine { hinv with storing := ?_, linking := ?_ } <;>
    simp only [World.setBusy, Function.update_apply] <;>
    grind [hinv.storing, hinv.linking]

theorem setLastWaker (hinv : Inv world place) (task : τ) (waker : Option ω) :
    Inv (world.setLastWaker task waker) place :=
  { hinv with places := hinv.places }

variable [DecidableEq φ]

omit [DecidableEq τ] in
theorem setAtom (hinv : Inv world place) (futex : φ) (new : α) :
    Inv (world.setAtom futex new) place :=
  { hinv with places := hinv.places }

variable [DecidableEq κ]

/-- A waiter whose compare-exchange has not succeeded is nowhere. -/
theorem nowhere (hinv : Inv world place) {task : τ}
    (hphase : ¬ (world.phase task).Waits) : place task = .nowhere := by
  by_contra hne
  exact hphase ((hinv.task task).waits hne)

theorem nowhere_of_done (hinv : Inv world place) {task : τ}
    (hdone : world.waker task = .done) : place task = .nowhere := by
  by_contra hne
  obtain ⟨waker, hwaker⟩ := (hinv.task task).asleep hne
  rw [hdone] at hwaker
  cases hwaker

omit [DecidableEq τ] [DecidableEq φ] [DecidableEq κ] in
/-- While a drop holds the write lock of a futex, no notifier holds a waiter
that this futex owns. -/
theorem holder_of_writer (hinv : Inv world place) {task waiter : τ}
    (hwriter : world.writer (world.owner waiter) = some task) :
    (place waiter).holder = none := by
  cases hholder : (place waiter).holder with
  | none => rfl
  | some notifier =>
      have hread := hinv.popped waiter notifier hholder
      rw [hinv.excluded _ task hwriter] at hread
      exact absurd hread (Finset.notMem_empty notifier)

/-! ## Waiting -/

variable [DecidableEq α] [DecidableEq ω]

theorem newWaiter (hinv : Inv world place) {task : τ} {futex : φ} {queue : κ}
    {outcome : Outcome (ListStore τ φ κ) τ φ α ω}
    (hnext : world.newWaiter task futex queue = some outcome) :
    Inv outcome.world place := by
  unfold World.newWaiter at hnext
  split at hnext
  case isFalse =>
    cases hnext
    exact hinv
  case isTrue hphase =>
    cases hnext
    have hfree : place task = .nowhere :=
      hinv.nowhere (by rcases hphase with h | h <;> simp [h, Phase.Waits])
    have hwrites : (world.phase task).writes = none := by
      rcases hphase with h | h <;> simp [h, Phase.writes]
    have henter : (Phase.enter : Phase τ φ α ω).writes = none := rfl
    have hlisted : ∀ notifier, task ∉ world.store.list notifier := by
      simp [hinv.places.list, hfree]
    have htask : TaskInv (place task) (.enter : Phase τ φ α ω) .none futex := by
      constructor <;> simp [hfree, Phase.Waits, Phase.flips, Phase.Live]
    obtain ⟨hplaces, htasks, hpopped, hwriter, hexcluded, hborrowed, hstoring,
      hlinking⟩ := hinv
    refine ⟨hplaces.renew hfree queue, ?_, ?_, ?_, hexcluded, hborrowed, ?_, ?_⟩ <;>
      simp only [FutexStore.renew, Function.update_apply] <;>
      grind [Place.holder]

omit [DecidableEq α] [DecidableEq ω] in
/-- A compare-exchange of `poll_enter` succeeds. -/
theorem push (hinv : Inv world place) {task : τ}
    (hphase : world.phase task = .enter)
    (hwaker : ∃ waker, world.waker task = .waiting waker) :
    Inv { world.setPhase task .entered with
        store := FutexStore.push world.store (world.owner task) task }
      (Function.update place task (.inbox (world.owner task))) := by
  have hfree : place task = .nowhere :=
    hinv.nowhere (by simp [hphase, Phase.Waits])
  have hwrites : (world.phase task).writes = none := by
    rw [hphase]
    rfl
  have hentered : (Phase.entered : Phase τ φ α ω).writes = none := rfl
  have htask : TaskInv (Place.inbox (world.owner task) : Place τ φ κ)
      (.entered : Phase τ φ α ω) (world.waker task) (world.owner task) := by
    obtain ⟨waker, hwaker⟩ := hwaker
    constructor <;> simp [hwaker, Phase.Waits, Phase.flips]
  obtain ⟨hplaces, htasks, hpopped, hwriter, hexcluded, hborrowed, hstoring,
    hlinking⟩ := hinv
  refine ⟨hplaces.push hfree _, ?_, ?_, ?_, hexcluded, hborrowed, hstoring,
    hlinking⟩ <;>
    simp only [World.setPhase, Function.update_apply] <;> grind [Place.holder]

theorem pollEnter (hinv : Inv world place) {task : τ} {futex : φ}
    {current : FutexAtom τ α} {new : α} {spurious : Bool} {waker : ω}
    {outcome : Outcome (ListStore τ φ κ) τ φ α ω}
    (hnext : world.pollEnter task futex current new spurious waker =
      some outcome) : ∃ place', Inv outcome.world place' := by
  unfold World.pollEnter at hnext
  split at hnext
  · cases hnext
    exact ⟨place, hinv⟩
  case isFalse hphase =>
    rw [not_not] at hphase
    split at hnext
    · cases hnext
      exact ⟨place, hinv⟩
    case isFalse howner =>
      rw [not_not] at howner
      subst howner
      have hfree : place task = .nowhere :=
        hinv.nowhere (by simp [hphase, Phase.Waits])
      cases hold : world.waker task with
      | done =>
          exact absurd hold ((hinv.task task).fresh hphase)
      | none =>
          have hwaiting : Inv (world.setWaker task (.waiting waker)) place := by
            refine hinv.setWaker ?_
            constructor <;>
              simp [hfree, hphase, Phase.Waits, Phase.flips]
          simp only [hold] at hnext
          split at hnext <;> cases hnext
          · exact ⟨_, ((hwaiting.push hphase ⟨waker, by simp [World.setWaker]⟩).setAtom
              (world.owner task) new).setLastWaker task (some waker)⟩
          · exact ⟨_, hwaiting.setLastWaker task (some waker)⟩
      | waiting old =>
          simp only [hold] at hnext
          split at hnext <;> cases hnext
          · exact ⟨_, (hinv.push hphase ⟨old, hold⟩).setAtom (world.owner task) new⟩
          · exact ⟨_, hinv⟩

omit [DecidableEq κ] in
theorem poll (hinv : Inv world place) {task : τ} {waker : ω}
    {outcome : Outcome (ListStore τ φ κ) τ φ α ω}
    (hnext : world.poll task waker = some outcome) :
    Inv outcome.world place := by
  unfold World.poll at hnext
  split at hnext
  case isFalse => cases hnext
  case isTrue hphase =>
    cases hnext
    refine (hinv.setPhase ?_ ?_).setLastWaker task (some waker)
    · rw [hphase.1]
      rfl
    · refine (hinv.task task).waiting ?_ trivial ?_ ?_ ?_ <;>
        simp [hphase.1, Phase.Waits, Phase.flips]

omit [DecidableEq α] in
theorem pollWaiting (hinv : Inv world place) {task : τ} {newWaker : ω}
    {seen : WaiterWaker ω} {spurious : Bool}
    (hphase : world.phase task = .polling newWaker seen)
    {outcome : Outcome (ListStore τ φ κ) τ φ α ω}
    (hnext : world.pollWaiting task newWaker seen spurious = some outcome) :
    Inv outcome.world place := by
  have htask := hinv.task task
  have hwaits : (world.phase task).Waits := by
    rw [hphase]
    trivial
  have hwrites : (world.phase task).writes = none := by
    rw [hphase]
    rfl
  obtain ⟨hseen, hdone⟩ := htask.polling newWaker seen hphase
  cases seen with
  | none => exact absurd rfl hseen
  | waiting old =>
      simp only [World.pollWaiting] at hnext
      split at hnext
      case isTrue heq =>
        cases hnext
        have hset : Inv (world.setWaker task (.waiting newWaker)) place := by
          refine hinv.setWaker { htask with
            asleep := fun _ => ⟨newWaker, rfl⟩
            woken := fun _ hnowhere => ?_
            registered := by simp
            polling := by simp [hphase]
            fresh := by simp }
          have hwoken := htask.woken hwaits hnowhere
          rw [heq.1] at hwoken
          cases hwoken
        refine hset.setPhase hwrites.symm ((hset.task task).waiting hwaits ?_ ?_ ?_ ?_) <;>
          simp [Phase.Waits, Phase.flips]
      case isFalse =>
        cases hnext
        refine hinv.setPhase hwrites.symm (htask.waiting hwaits ?_ ?_ ?_ ?_) <;>
          simp [Phase.Waits, Phase.flips]
  | done =>
      cases hnext
      have hnowhere := hinv.nowhere_of_done (hdone rfl)
      refine hinv.setPhase hwrites.symm ?_
      rw [hnowhere]
      exact TaskInv.idle _ _

/-! ## Dropping a pending future -/

omit [DecidableEq κ] in
theorem drop (hinv : Inv world place) {task : τ}
    {outcome : Outcome (ListStore τ φ κ) τ φ α ω}
    (hnext : world.drop task = some outcome) : Inv outcome.world place := by
  unfold World.drop at hnext
  split at hnext
  case isFalse => cases hnext
  case isTrue hphase =>
    cases hnext
    refine hinv.setPhase ?_ ?_
    · rw [hphase.1]
      rfl
    · refine (hinv.task task).waiting ?_ trivial ?_ ?_ ?_ <;>
        simp [hphase.1, Phase.Waits, Phase.flips]

omit [DecidableEq κ] [DecidableEq α] [DecidableEq ω] in
/-- The drop takes the write lock. -/
theorem lockWriter (hinv : Inv world place) {task : τ} {futex : φ}
    (hphase : world.phase task = .dropLock futex)
    (hwriter : world.writer futex = none) (hreaders : world.readers futex = ∅) :
    Inv ((world.setWriter futex (some task)).setPhase task (.dropCheck futex))
      place := by
  have htask : TaskInv (place task) (.dropCheck futex : Phase τ φ α ω)
      (world.waker task) (world.owner task) := by
    refine (hinv.task task).waiting ?_ trivial ?_ ?_ ?_ <;>
      simp [hphase, Phase.Waits, Phase.flips]
  have hwrites : (world.phase task).writes = none := by
    rw [hphase]
    rfl
  have hcheck : (Phase.dropCheck futex : Phase τ φ α ω).writes = some futex := rfl
  obtain ⟨hplaces, htasks, hpopped, hwriters, hexcluded, hborrowed, hstoring,
    hlinking⟩ := hinv
  refine ⟨hplaces, ?_, hpopped, ?_, ?_, hborrowed, hstoring, hlinking⟩ <;>
    simp only [World.setPhase, World.setWriter, Function.update_apply] <;> grind

omit [DecidableEq κ] [DecidableEq α] [DecidableEq ω] in
/-- The drop releases the write lock. -/
theorem unlockWriter (hinv : Inv world place) {task : τ} {futex : φ}
    {phase : Phase τ φ α ω} (hwrites : (world.phase task).writes = some futex)
    (hphase : phase.writes = none)
    (htask : TaskInv (place task) phase (world.waker task) (world.owner task)) :
    Inv ((world.setWriter futex none).setPhase task phase) place := by
  have hself := (hinv.writer futex task).mpr hwrites
  obtain ⟨hplaces, htasks, hpopped, hwriters, hexcluded, hborrowed, hstoring,
    hlinking⟩ := hinv
  refine ⟨hplaces, ?_, hpopped, ?_, ?_, hborrowed, hstoring, hlinking⟩ <;>
    simp only [World.setPhase, World.setWriter, Function.update_apply] <;> grind

omit [DecidableEq α] [DecidableEq ω] in
/-- The inbox goes to the queues. -/
theorem enqueue (hinv : Inv world place) {futex : φ}
    {store : ListStore τ φ κ}
    (hstore : FutexStore.enqueue world.store futex = some store) :
    Inv { world with store := store }
      (Places.enqueued world.store futex place) := by
  have hlist : store.list = world.store.list := by
    cases hstore
    rfl
  obtain ⟨hplaces, htasks, hpopped, hwriters, hexcluded, hborrowed, hstoring,
    hlinking⟩ := hinv
  refine ⟨hplaces.enqueue hstore, fun task => ?_, ?_, hwriters, hexcluded,
    hborrowed, ?_, ?_⟩
  · have htask := htasks task
    unfold Places.enqueued
    split
    case isTrue hinbox =>
      rw [hinbox] at htask
      exact { htask with
        waits := fun _ => htask.waits (by simp)
        asleep := fun _ => htask.asleep (by simp)
        woken := by simp
        owned := by simpa using htask.owned
        flipped := by simp }
    case isFalse => exact htask
  · simp only [Places.enqueued]
    grind [Place.holder]
  · simpa [hlist] using hstoring
  · simpa [hlist] using hlinking

omit [DecidableEq τ] [DecidableEq φ] [DecidableEq κ] [DecidableEq α] [DecidableEq ω] in
/-- A drop past its flip finds its waiter in a queue of the owner, unless the
waiter was woken. -/
theorem place_of_cancel (hinv : Inv world place) {task : τ} {futex : φ}
    (hphase : world.phase task = .dropCancel futex) :
    place task = .nowhere ∨ ∃ queue, place task = .queue futex queue := by
  have htask := hinv.task task
  rw [hphase] at htask
  have howner : world.owner task = futex := htask.flips futex rfl
  have hwriter : world.writer futex = some task := by
    rw [hinv.writer, hphase]
    rfl
  have hholder := hinv.holder_of_writer (howner.symm ▸ hwriter)
  have howned := htask.owned
  have hinbox := htask.flipped futex rfl
  cases hat : place task with
  | nowhere => exact Or.inl rfl
  | inbox other =>
      rw [hat] at howned hinbox
      have heq : futex = other := howner.symm.trans (howned other rfl)
      exact absurd (by rw [heq]) hinbox
  | queue other queue =>
      rw [hat] at howned
      have heq : futex = other := howner.symm.trans (howned other rfl)
      exact Or.inr ⟨queue, by rw [heq]⟩
  | list notifier => simp [hat] at hholder
  | hand notifier => simp [hat] at hholder

omit [DecidableEq α] [DecidableEq ω] in
/-- The drop splices its waiter out of the queues of the owner. -/
theorem cancel (hinv : Inv world place) {task : τ} {futex : φ}
    (hphase : world.phase task = .dropCancel futex) :
    Inv { world.setPhase task (.dropUnlock futex) with
        store := FutexStore.cancel world.store futex task }
      (Function.update place task .nowhere) := by
  have htask := hinv.task task
  rw [hphase] at htask
  have hplace := hinv.place_of_cancel hphase
  have hfree : (place task).holder = none := by
    rcases hplace with h | ⟨queue, h⟩ <;> simp [h]
  have hwrites : (world.phase task).writes = some futex := by
    rw [hphase]
    rfl
  have hunlock : (Phase.dropUnlock futex : Phase τ φ α ω).writes = some futex := rfl
  have htask' : TaskInv (.nowhere : Place τ φ κ)
      (.dropUnlock futex : Phase τ φ α ω) (world.waker task) (world.owner task) := by
    have hregistered := htask.registered trivial
    constructor <;> simp [Phase.Waits, Phase.flips, hregistered]
  have hlist : (FutexStore.cancel world.store futex task).list =
      world.store.list := rfl
  obtain ⟨hplaces, htasks, hpopped, hwriters, hexcluded, hborrowed, hstoring,
    hlinking⟩ := hinv
  refine ⟨hplaces.cancel hplace, ?_, ?_, ?_, hexcluded, hborrowed, hstoring,
    hlinking⟩ <;>
    simp only [World.setPhase, Function.update_apply] <;> grind [Place.holder]

omit [DecidableEq α] [DecidableEq ω] in
theorem flipAt (hinv : Inv world place) {task : τ} {futex : φ}
    (hphase : (world.phase task).flips = some futex)
    (hload : ∀ futex, world.phase task ≠ .dropCancel futex) :
    Inv (world.flipAt task futex (world.word futex)) place := by
  have htask := hinv.task task
  have howner : world.owner task = futex := htask.flips futex hphase
  have hwaits : (world.phase task).Waits := by
    cases hcase : world.phase task <;> simp [hcase, Phase.flips] at hphase <;> trivial
  unfold World.flipAt
  split
  case isTrue hinbox =>
    refine hinv.setPhase ?_ (htask.waiting hwaits trivial ?_ ?_ ?_)
    · cases hcase : world.phase task <;>
        simp_all [Phase.flips, Phase.writes]
    · simp
    · simp [Phase.flips, howner]
    · simp only [Phase.dropCancel.injEq]
      rintro _ rfl hplace
      have hmem := (hinv.places.inbox futex task).mpr hplace
      have hnil : world.store.inbox futex = [] := by
        simpa [World.word, FutexStore.top] using hinbox
      simp [hnil] at hmem
  case isFalse =>
    refine hinv.setPhase ?_ (htask.waiting hwaits trivial ?_ ?_ ?_)
    · cases hcase : world.phase task <;>
        simp_all [Phase.flips, Phase.writes]
    · simp
    · simp [Phase.flips, howner]
    · simp

omit [DecidableEq ω] in
theorem dropStep (hinv : Inv world place) {task : τ} {spurious : Bool}
    {outcome : Outcome (ListStore τ φ κ) τ φ α ω}
    (hnext : world.dropStep task spurious = some outcome) :
    ∃ place', Inv outcome.world place' := by
  have htask := hinv.task task
  unfold World.dropStep at hnext
  split at hnext
  case h_1 owner hphase =>
    split at hnext
    case isFalse => cases hnext
    case isTrue hfree =>
      cases hnext
      exact ⟨_, hinv.lockWriter hphase hfree.1 hfree.2⟩
  case h_2 owner hphase =>
    cases hnext
    rw [hphase] at htask
    refine ⟨place, hinv.setPhase ?_ ?_⟩
    · rw [hphase]
      split <;> rfl
    · split
      case isTrue heq =>
        refine htask.waiting trivial trivial ?_ ?_ ?_ <;> simp [Phase.flips, heq]
      case isFalse =>
        refine htask.waiting trivial trivial ?_ ?_ ?_ <;> simp [Phase.flips]
  case h_3 owner owner2 hphase =>
    cases hnext
    rw [hphase] at htask
    refine ⟨place, hinv.unlockWriter ?_ rfl ?_⟩
    · rw [hphase]
      rfl
    · refine htask.waiting trivial trivial ?_ ?_ ?_ <;> simp [Phase.flips]
  case h_4 owner hphase =>
    cases hnext
    refine ⟨place, hinv.flipAt ?_ ?_⟩ <;> simp [hphase, Phase.flips]
  case h_5 owner current hphase =>
    split at hnext
    case isTrue =>
      rw [Option.map_eq_some_iff] at hnext
      obtain ⟨store, hstore, rfl⟩ := hnext
      have henqueued := hinv.enqueue hstore
      have htask' := henqueued.task task
      simp only [hphase] at htask'
      have hwrites : (Phase.dropCancel owner : Phase τ φ α ω).writes =
          (world.phase task).writes := by
        simp [hphase, Phase.writes]
      refine ⟨_, henqueued.setPhase hwrites ?_⟩
      · refine htask'.waiting trivial trivial ?_ ?_ ?_
        · simp
        · simpa [Phase.flips] using htask'.flips
        · simp only [Phase.dropCancel.injEq, Places.enqueued]
          rintro _ rfl
          split <;> simp_all
    case isFalse =>
      cases hnext
      refine ⟨place, hinv.flipAt ?_ ?_⟩ <;> simp [hphase, Phase.flips]
  case h_6 owner hphase =>
    cases hnext
    exact ⟨_, hinv.cancel hphase⟩
  case h_7 owner hphase =>
    cases hnext
    rw [hphase] at htask
    have hnowhere : place task = .nowhere :=
      hinv.nowhere (by simp [hphase, Phase.Waits])
    have hregistered := htask.registered trivial
    refine ⟨place, hinv.unlockWriter (by rw [hphase]; rfl) rfl ?_⟩
    rw [hnowhere]
    constructor <;> simp [Phase.Waits, Phase.flips, hregistered]
  case h_8 hphase =>
    rw [hphase] at htask
    have hnowhere : place task = .nowhere :=
      hinv.nowhere (by simp [hphase, Phase.Waits])
    have hidle : Inv ((world.setWaker task .none).setPhase task .idle) place := by
      refine hinv.setFuture (by rw [hphase]; rfl) ?_
      rw [hnowhere]
      exact TaskInv.idle _ _
    split at hnext
    case h_1 hwaker => exact absurd hwaker (htask.registered trivial)
    case h_2 => cases hnext; exact ⟨place, hidle⟩
    case h_3 => cases hnext; exact ⟨place, hidle⟩
  case h_9 => cases hnext

end Inv

end World

end AsyncMutex

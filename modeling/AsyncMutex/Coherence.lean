import AsyncMutex.Verified

/-!
# What program points say about the waiters

A client is coherent when its board agrees with what its tasks hold.  Then the
program point of a task tells whether its waiter is in some list, and each
waiter is in at most one.
-/

namespace AsyncMutex

namespace Slot

variable {φ κ : Type}

/-- The code has no future of a successful compare-exchange. -/
def Unused : Slot φ κ → Prop
  | .free => True
  | .fresh _ _ => True
  | _ => False

end Slot

namespace Board

variable {τ φ κ α : Type}

/-- An inbox or a queue has the waiter. -/
def Listed (board : Board τ φ κ α) (task : τ) : Prop :=
  (∃ futex, task ∈ board.store.inbox futex) ∨
    ∃ futex queue, task ∈ board.store.queues futex queue

/-- A notifier has popped the waiter and not yet woken it. -/
def Popped (board : Board τ φ κ α) (task : τ) : Prop :=
  (∃ other, board.handle other = some task) ∨ ∃ other, task ∈ board.store.list other

end Board

namespace Client.Coherent

variable {τ φ κ α ω M L C : Type}
  {client : Client τ φ κ α M L C} {holds : L → Holding φ κ} {board : Board τ φ κ α}
  {pc : τ → L} {task : τ}

variable (hco : client.Coherent holds board pc)
include hco

theorem unlisted_of_unused [DecidableEq κ] [DecidableEq φ] [DecidableEq τ]
    (hslot : (holds (pc task)).slot.Unused) :
    ¬ board.Listed task ∧ ¬ board.Popped task := by
  obtain ⟨place, hplaced⟩ := hco.placed
  have hfits := (hco.fits task).slot
  have hnowhere : place task = .nowhere := by
    by_contra hplace
    have hwaits := hplaced.waits task hplace
    cases hcase : (holds (pc task)).slot with
    | entered queue => simp [hcase, Slot.Unused] at hslot
    | waiting queue => simp [hcase, Slot.Unused] at hslot
    | free =>
        rw [hcase] at hfits
        rcases hwaits with h | h | h <;> simp [Slot.Fits, h] at hfits
    | fresh futex queue =>
        rw [hcase] at hfits
        rcases hwaits with h | h | h <;> simp [Slot.Fits, h] at hfits
  constructor
  · rintro (⟨futex, hmem⟩ | ⟨futex, queue, hmem⟩)
    · rw [hplaced.places.inbox, hnowhere] at hmem
      cases hmem
    · rw [hplaced.places.queues, hnowhere] at hmem
      cases hmem
  · rintro (⟨other, hhandle⟩ | ⟨other, hmem⟩)
    · rw [hplaced.places.hand, hnowhere] at hhandle
      cases hhandle
    · rw [hplaced.places.list, hnowhere] at hmem
      cases hmem

theorem awake_of_fresh {futex : φ} {queue : κ}
    (hslot : (holds (pc task)).slot = .fresh futex queue) : board.awake task = false := by
  obtain ⟨place, hplaced⟩ := hco.placed
  have hfits := (hco.fits task).slot
  rw [hslot] at hfits
  exact (hplaced.fresh task futex hfits.1).1

theorem unlisted_of_popped (hpopped : board.Popped task) : ¬ board.Listed task := by
  obtain ⟨place, hplaced⟩ := hco.placed
  have hplace : (∃ other, place task = .hand other) ∨ ∃ other, place task = .list other := by
    rcases hpopped with ⟨other, hhandle⟩ | ⟨other, hmem⟩
    · exact Or.inl ⟨other, (hplaced.places.hand other task).mp hhandle⟩
    · exact Or.inr ⟨other, (hplaced.places.list other task).mp hmem⟩
  rintro (⟨futex, hmem⟩ | ⟨futex, queue, hmem⟩)
  · rw [hplaced.places.inbox] at hmem
    rcases hplace with ⟨other, h⟩ | ⟨other, h⟩ <;> simp [h] at hmem
  · rw [hplaced.places.queues] at hmem
    rcases hplace with ⟨other, h⟩ | ⟨other, h⟩ <;> simp [h] at hmem

theorem awake_of_popped (hpopped : board.Popped task) : board.awake task = false := by
  obtain ⟨place, hplaced⟩ := hco.placed
  apply hplaced.asleep
  rcases hpopped with ⟨other, hhandle⟩ | ⟨other, hmem⟩
  · simp [(hplaced.places.hand other task).mp hhandle]
  · simp [(hplaced.places.list other task).mp hmem]

theorem awake_of_listed (hlisted : board.Listed task) : board.awake task = false := by
  obtain ⟨place, hplaced⟩ := hco.placed
  apply hplaced.asleep
  rcases hlisted with ⟨futex, hmem⟩ | ⟨futex, queue, hmem⟩
  · simp [(hplaced.places.inbox futex task).mp hmem]
  · simp [(hplaced.places.queues futex queue task).mp hmem]

theorem not_list_of_handle {other third : τ} (hother : board.handle other = some task) :
    task ∉ board.store.list third := by
  obtain ⟨place, hplaced⟩ := hco.placed
  have hplace := (hplaced.places.hand other task).mp hother
  rw [hplaced.places.list, hplace]
  simp

theorem eq_of_list {other third : τ} (hother : task ∈ board.store.list other)
    (hthird : task ∈ board.store.list third) : other = third := by
  obtain ⟨place, hplaced⟩ := hco.placed
  rw [hplaced.places.list] at hother hthird
  rw [hother] at hthird
  exact Place.list.inj hthird

/-- A future that waits and was not woken has its waiter somewhere. -/
theorem listed_or_popped
    (hstage : board.stage task = .entered ∨ board.stage task = .waiting)
    (hawake : board.awake task = false) : board.Listed task ∨ board.Popped task := by
  obtain ⟨place, hplaced⟩ := hco.placed
  have hplace := hplaced.somewhere task hstage hawake
  cases hcase : place task with
  | nowhere => exact absurd hcase hplace
  | inbox futex => exact Or.inl (Or.inl ⟨futex, (hplaced.places.inbox futex task).mpr hcase⟩)
  | queue futex queue =>
      exact Or.inl (Or.inr ⟨futex, queue, (hplaced.places.queues futex queue task).mpr hcase⟩)
  | hand other => exact Or.inr (Or.inl ⟨other, (hplaced.places.hand other task).mpr hcase⟩)
  | list other => exact Or.inr (Or.inr ⟨other, (hplaced.places.list other task).mpr hcase⟩)

/-- No waiter is with a notifier while nobody is one. -/
theorem not_popped (hhand : ∀ other, (holds (pc other)).hand = false)
    (hlist : ∀ other, (holds (pc other)).list = false) : ¬ board.Popped task := by
  rintro (⟨other, hhandle⟩ | ⟨other, hmem⟩)
  · rw [(hco.fits other).handle_eq_none (hhand other)] at hhandle
    cases hhandle
  · rw [(hco.fits other).list (hlist other)] at hmem
    cases hmem

/-- A longer operation runs only where the code has asked for it. -/
theorem idle_of_code (hwake : client.code (pc task) ≠ .call .wake)
    (hrequeue : ∀ futex, client.code (pc task) ≠ .call (.requeue futex)) :
    board.activity task = .none := by
  cases hactivity : board.activity task with
  | none => rfl
  | waking => exact absurd ((hco.fits task).waking hactivity) hwake
  | requeueing futex =>
      exact absurd ((hco.fits task).requeueing futex hactivity) (hrequeue futex)

/-- A task that holds a handle where no longer operation runs. -/
theorem exists_handle (hhand : (holds (pc task)).hand = true)
    (hwake : client.code (pc task) ≠ .call .wake)
    (hrequeue : ∀ futex, client.code (pc task) ≠ .call (.requeue futex)) :
    ∃ waiter, board.handle task = some waiter := by
  have hsome := (hco.fits task).hand (hco.idle_of_code hwake hrequeue)
  rw [hhand] at hsome
  exact Option.isSome_iff_exists.mp hsome

end Client.Coherent

end AsyncMutex

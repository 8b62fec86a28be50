import AsyncMutex.FairMutexSteps

/-!
# The fair mutex

The pointers of the source run the code of the fair mutex.  With an empty `K`
this is the mutex alone; with condition variables, `Condvar::wait` and
`Condvar::notify` are further owners of the lock.
-/

namespace AsyncMutex

namespace FairMutex

variable {τ K ω : Type}

theorem inv_initial (address : ℕ+) :
    Inv address (World.initial (ListStore.empty 0) (fun _ => 0) .mutex :
      ListWorld τ (Cell K) (Fin 1) ℕ ω).board fun _ => .idle := by
  have hfree : ∀ task, ¬ Owns (World.initial (ListStore.empty 0) (fun _ => 0) .mutex :
      ListWorld τ (Cell K) (Fin 1) ℕ ω).board task .idle :=
    fun task => Inv.not_owns_of_idle rfl rfl
  exact ⟨fun task _ howner => absurd howner (hfree task),
    Or.inr ⟨rfl, hfree, rfl, rfl⟩, fun _ => .of_idle rfl rfl,
    fun _ => Or.inr ⟨rfl, rfl, rfl⟩⟩

variable [Fintype τ] [DecidableEq τ] [DecidableEq K] [DecidableEq ω]

/-- The runs of any number of tasks from `Mutex::new` and `Condvar::new`. -/
def machine (address : ℕ+) :
    Machine (HeapSystem τ (Cell K) (Fin 1) ℕ ω Unit (Point τ K))
      (τ × Label (Call K) ω) (Mark τ (Cell K) ℕ ω (Point τ K) (Call K)) :=
  System.machine (client address) usage (HeapStore.empty 0) (fun _ => 0) .mutex ()

variable {address : ℕ+} {sys : HeapSystem τ (Cell K) (Fin 1) ℕ ω Unit (Point τ K)}

theorem verified_of_reachable
    (hreach : (machine address : Machine (HeapSystem τ (Cell K) (Fin 1) ℕ ω Unit
      (Point τ K)) _ _).Reachable sys) :
    sys.lists.Verified (client address) holds
      (fun board _ pc => Inv address board pc) :=
  System.Verified.of_reachable (typed address) (invariant address)
    (inv_initial address) (System.lists_of_reachable hreach).1

/-- The lock is handed over safely. -/
structure HandsOver (sys : HeapSystem τ (Cell K) (Fin 1) ℕ ω Unit (Point τ K)) :
    Prop where
  binary : sys.world.atom .mutex = 0 ∨ sys.world.atom .mutex = 1
  /-- Exactly one owner while the atom is 1. -/
  owned : sys.world.atom .mutex = 1 →
    ∃! task, Owner sys.world.handle sys.world.awake task (sys.pc task)
  free : sys.world.atom .mutex = 0 →
    ∀ task, ¬ Owner sys.world.handle sys.world.awake task (sys.pc task)
  exclusive : ∀ task other, sys.pc task = .guard → sys.pc other = .guard →
    task = other
  /-- No waiter is stranded. -/
  empty : sys.world.atom .mutex = 0 →
    sys.world.lists.store.inbox .mutex = [] ∧
      sys.world.lists.store.queues .mutex 0 = [] ∧
      FutexStore.top sys.world.store .mutex = none ∧
      FutexStore.isEmpty sys.world.store .mutex 0 = true
  safe : sys.panicked = false

theorem handsOver_of_verified
    (hreach : (machine address : Machine (HeapSystem τ (Cell K) (Fin 1) ℕ ω Unit
      (Point τ K)) _ _).Reachable sys)
    (hsys : sys.lists.Verified (client address) holds (fun board _ pc => Inv address board pc)) :
    HandsOver sys := by
  obtain ⟨-, hrep⟩ := System.lists_of_reachable hreach
  obtain ⟨before, hlists, -⟩ := hrep.lists
  obtain ⟨hsafe, -, -, hinv⟩ := hsys
  have hexclusive : ∀ task other,
      Owner sys.world.handle sys.world.awake task (sys.pc task) →
      Owner sys.world.handle sys.world.awake other (sys.pc other) → task = other :=
    hinv.unique
  have hguard : ∀ task, sys.pc task = .guard →
      Owner sys.world.handle sys.world.awake task (sys.pc task) := fun task hpc =>
    Or.inl (by rw [hpc]; rfl)
  rcases hinv.locked with ⟨hone, owner, howner⟩ | ⟨hzero, hfree, hinbox, hqueue⟩
  · have hone' : sys.world.atom .mutex = 1 := hone
    refine ⟨Or.inr hone', fun _ => ⟨owner, howner, fun other hother =>
      hexclusive other owner hother howner⟩, ?_, ?_, ?_, hsafe⟩
    · simp [hone']
    · exact fun task other htask hother =>
        hexclusive task other (hguard task htask) (hguard other hother)
    · simp [hone']
  · have hzero' : sys.world.atom .mutex = 0 := hzero
    refine ⟨Or.inl hzero', by simp [hzero'], fun _ => hfree,
      fun task other htask => absurd (hguard task htask) (hfree task), fun _ => ?_, hsafe⟩
    refine ⟨hinbox, hqueue, ?_, ?_⟩
    · rw [hlists.top]
      exact List.head?_eq_none_iff.mpr hinbox
    · rw [hlists.isEmpty]
      exact List.isEmpty_iff.mpr hqueue

/-- In every run the mutex hands the lock over safely, with cancellation. -/
theorem handsOver_of_reachable
    (hreach : (machine address : Machine (HeapSystem τ (Cell K) (Fin 1) ℕ ω Unit
      (Point τ K)) _ _).Reachable sys) : HandsOver sys :=
  handsOver_of_verified hreach (verified_of_reachable hreach)

/-- One task locks the mutex while another one waits. -/
theorem handsOver_of_lock :
    ∃ sys : HeapSystem (Fin 2) (Cell Empty) (Fin 1) ℕ Unit Unit (Point (Fin 2) Empty),
      sys.pc 0 = .guard ∧ sys.pc 1 = .lockWaiting ∧ HandsOver sys := by
  let lock (task : Fin 2) : List (Fin 2 × Label (Call Empty) Unit) :=
    [(task, .start .lock), (task, .call false ()), (task, .call false ()),
      (task, .call false ())]
  have hreach := (machine 1 : Machine (HeapSystem (Fin 2) (Cell Empty) (Fin 1) ℕ Unit
    Unit (Point (Fin 2) Empty)) _ _).reachable_of_run
      (lock 0 ++ lock 1 ++ [(1, .call false ())]) rfl
  exact ⟨_, rfl, rfl, handsOver_of_reachable hreach⟩

end FairMutex

end AsyncMutex

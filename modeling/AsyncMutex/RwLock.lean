import AsyncMutex.RwLockSteps
import Mathlib.Data.Set.Card

/-!
# The reader-writer lock

The pointers of the source run the code of the reader-writer lock.  Writers
exclude everybody, the two counts of the word are exact, and nobody sleeps on
a free lock.  All this holds while there are fewer than `2 ^ 32` tasks.
-/

namespace AsyncMutex

namespace RwLock

variable {τ ω : Type}

theorem inv_initial :
    Inv (World.initial (ListStore.empty .read) (fun _ => 0) () :
      ListWorld τ Unit Queue ℕ ω).board fun _ => .idle := by
  refine ⟨∅, ∅, none, ?_⟩
  constructor
  · intro task
    constructor <;> simp [Reads, Owns, Point.reads, Point.writes, Point.owns, Point.waits]
  · constructor <;> simp [word, World.board, World.initial, Atom.decode]
  · exact fun task => ⟨fun h => h.elim, trivial, trivial, trivial⟩
  · exact fun _ => rfl
  · exact fun _ => Or.inl rfl
  · simp [World.board, World.initial, ListStore.empty]
  · simp

variable [Fintype τ] [DecidableEq τ] [DecidableEq ω]

/-- The runs of any number of tasks from `RwLock::new`. -/
def machine :
    Machine (HeapSystem τ Unit Queue ℕ ω Unit (Point τ)) (τ × Label Call ω)
      (Mark τ Unit ℕ ω (Point τ) Call) :=
  System.machine client usage (HeapStore.empty .read) (fun _ => 0) () ()

variable {sys : HeapSystem τ Unit Queue ℕ ω Unit (Point τ)}

theorem verified_of_reachable (hcard : Fintype.card τ < 2 ^ 32)
    (hreach : (machine : Machine (HeapSystem τ Unit Queue ℕ ω Unit (Point τ)) _
      _).Reachable sys) :
    sys.lists.Verified client holds (fun board _ pc => Inv board pc) :=
  System.Verified.of_reachable typed (invariant hcard) inv_initial
    (System.lists_of_reachable hreach).1

/-- The waiter of the task was popped, and counted if it is a reader. -/
def HasTurn (sys : HeapSystem τ Unit Queue ℕ ω Unit (Point τ)) (task : τ) : Prop :=
  Granted sys.lists.world.board sys.pc task

/-- The task has the lock for reading, was granted it, or is the placeholder of
a downgrade. -/
def Reading (sys : HeapSystem τ Unit Queue ℕ ω Unit (Point τ)) (task : τ) : Prop :=
  Reads (HasTurn sys task) (sys.pc task)

/-- The task has the lock for writing, or was popped for it. -/
def Writing (sys : HeapSystem τ Unit Queue ℕ ω Unit (Point τ)) (task : τ) : Prop :=
  sys.pc task = .guard .write ∨
    (∃ point : WriteUnlock τ, sys.pc task = .writeUnlock point ∧ point.writes = true) ∨
      (sys.pc task).waits = some .write ∧ HasTurn sys task

/-- The writers on the inbox and in `WRITE_QUEUE`. -/
def queuedWriters (board : LockBoard τ) : List τ :=
  board.store.arrivals () .write ++ writeQueue board

/-- No poll, drop, unlock or wakeup is under way, and nobody has the lock. -/
def Quiet (sys : HeapSystem τ Unit Queue ℕ ω Unit (Point τ)) : Prop :=
  ∀ task, sys.pc task = .idle ∨ ∃ queue, sys.pc task = .waiting queue ∧
    sys.world.phase task = .pending ∧ sys.world.awake task = false

structure KeepsBooks (sys : HeapSystem τ Unit Queue ℕ ω Unit (Point τ)) : Prop where
  safe : sys.panicked = false
  exclusive : ∀ task other queue, sys.pc task = .guard .write → sys.pc other = .guard queue →
    task = other
  readers : (Atom.decode (sys.world.atom ())).readers = {task | Reading sys task}.ncard
  writers : (Atom.decode (sys.world.atom ())).writers =
    {task | Writing sys task}.ncard + (queuedWriters sys.lists.world.board).length
  /-- A writer is alone. -/
  alone : ∀ task, Writing sys task → ∀ other, ¬ Reading sys other ∧ (Writing sys other →
    other = task)
  /-- Without writers nobody is queued, unless a downgrade is about to pop. -/
  empty : (Atom.decode (sys.world.atom ())).writers = 0 →
    FutexStore.top sys.world.store () = none ∧
      FutexStore.isEmpty sys.world.store () Queue.write = true ∧
        ((∀ task, (sys.pc task).pops = false) →
          FutexStore.isEmpty sys.world.store () Queue.read = true)
  quiet : Quiet sys → ∀ task, sys.pc task = .idle

/-! ## The writers -/

section Writers

variable {board : LockBoard τ} {pc : τ → Point τ} {readers writers : Finset τ}
  {owner : Option τ} (hacc : Accounts board pc readers writers owner)
  (hco : (client : Client τ Unit _ _ Unit _ _).Coherent holds board pc)
include hacc hco

omit [Fintype τ] in
theorem mem_queuedWriters {writer : τ} :
    writer ∈ queuedWriters board ↔ writer ∈ writers ∧ owner ≠ some writer := by
  constructor
  · intro hmem
    have hlisted : board.Listed writer ∧ board.store.queue writer = .write := by
      rcases List.mem_append.mp hmem with hmem | hmem
      · obtain ⟨hinbox, hqueue⟩ := Accounts.mem_arrivals.mp hmem
        exact ⟨Or.inl ⟨(), hinbox⟩, hqueue⟩
      · exact ⟨Or.inr ⟨(), .write, hmem⟩, Accounts.queue_eq hco hmem⟩
    have hwaits := Accounts.waits_of_listed hco (Or.inl hlisted.1)
    rw [hlisted.2] at hwaits
    constructor
    · apply hacc.mem_writers
      cases hpc : pc writer <;> simp_all [Point.waits, Point.writes]
    · intro howner
      rcases (hacc.roles writer).owns.mpr howner with howns | ⟨-, hgranted⟩
      · cases hpc : pc writer <;> simp_all [Point.waits, Point.owns]
      · exact Accounts.not_granted_of_listed hco hlisted.1 hgranted
  · rintro ⟨hwriter, howner⟩
    obtain ⟨hlisted, hqueue⟩ := Accounts.writer_listed hco hacc hwriter howner
    rw [queuedWriters, List.mem_append, Accounts.mem_arrivals]
    rcases hlisted with hinbox | hqueued
    · exact Or.inl ⟨hinbox, hqueue⟩
    · exact Or.inr hqueued

omit hacc [Fintype τ] [DecidableEq τ] in
theorem nodup_queuedWriters : (queuedWriters board).Nodup := by
  obtain ⟨place, hplaced⟩ := hco.placed
  have hinbox : (board.store.arrivals () .write).Nodup :=
    (List.nodup_reverse.mpr (hplaced.places.inboxNodup ())).filter _
  refine hinbox.append (hplaced.places.queuesNodup () .write) ?_
  intro waiter harrival hqueued
  have hplace := (hplaced.places.inbox () waiter).mp (Accounts.mem_arrivals.mp harrival).1
  have hplace' := (hplaced.places.queues () .write waiter).mp hqueued
  rw [hplace] at hplace'
  cases hplace'

omit [Fintype τ] in
/-- Of the writers, the owner has the lock and the others are queued. -/
theorem card_writers :
    writers.card = (writers.filter fun writer => owner = some writer).card +
      (queuedWriters board).length := by
  have hqueued : (writers.filter fun writer => ¬ owner = some writer) =
      (queuedWriters board).toFinset := by
    ext writer
    rw [Finset.mem_filter, List.mem_toFinset, mem_queuedWriters hacc hco]
  rw [← List.toFinset_card_of_nodup (nodup_queuedWriters hco), ← hqueued]
  exact (Finset.card_filter_add_card_filter_not _).symm

omit hco [Fintype τ] [DecidableEq τ] in
theorem owner_iff {writer : τ} :
    writer ∈ writers ∧ owner = some writer ↔ pc writer = .guard .write ∨
      (∃ point : WriteUnlock τ, pc writer = .writeUnlock point ∧ point.writes = true) ∨
        (pc writer).waits = some .write ∧ Granted board pc writer := by
  rw [← (hacc.roles writer).writes, ← (hacc.roles writer).owns]
  constructor
  · rintro ⟨hwrites, howns⟩
    cases hpc : pc writer with
    | guard queue =>
        cases queue
        · simp [hpc, Point.writes] at hwrites
        · exact Or.inl rfl
    | writeUnlock point =>
        rw [hpc] at hwrites
        exact Or.inr (Or.inl ⟨point, rfl, hwrites⟩)
    | entered queue =>
        rw [hpc] at hwrites howns
        cases queue <;> simp_all [Point.writes, Point.waits, Point.owns, Owns]
    | waiting queue =>
        rw [hpc] at hwrites howns
        cases queue <;> simp_all [Point.writes, Point.waits, Point.owns, Owns]
    | _ => simp [hpc, Point.writes] at hwrites
  · rintro (hpc | ⟨point, hpc, hwrites⟩ | ⟨hwaits, hgranted⟩)
    · rw [hpc]
      exact ⟨rfl, Or.inl rfl⟩
    · rw [hpc]
      refine ⟨hwrites, Or.inl ?_⟩
      cases point <;> simp_all [Point.owns, WriteUnlock.writes]
    · refine ⟨?_, Or.inr ⟨hwaits, hgranted⟩⟩
      cases hpc : pc writer <;> simp_all [Point.waits, Point.writes]

end Writers

/-! ## Where nobody runs -/

section Rest

variable {board : LockBoard τ} {pc : τ → Point τ} {readers writers : Finset τ}
  {owner : Option τ} (hacc : Accounts board pc readers writers owner)
  (hco : (client : Client τ Unit _ _ Unit _ _).Coherent holds board pc)
  (hrest : ∀ task, pc task = .idle ∨ ∃ queue, pc task = .waiting queue ∧
    board.stage task = .waiting ∧ board.awake task = false)
include hrest

omit [DecidableEq τ] [Fintype τ] in
theorem holds_of_rest (task : τ) :
    (holds (pc task)).hand = false ∧ (holds (pc task)).list = false := by
  rcases hrest task with hpc | ⟨queue, hpc, -⟩ <;> rw [hpc] <;> exact ⟨rfl, rfl⟩

include hco

omit [Fintype τ] [DecidableEq τ] in
theorem not_popped_of_rest (task : τ) : ¬ board.Popped task :=
  hco.not_popped (fun other => (holds_of_rest hrest other).1)
    fun other => (holds_of_rest hrest other).2

omit [Fintype τ] [DecidableEq τ] in
theorem not_granted_of_rest {task : τ} {queue : Queue} (hpc : pc task = .waiting queue) :
    ¬ Granted board pc task := by
  have hunpopped := not_popped_of_rest hco hrest task
  rintro (⟨other, hhandle⟩ | ⟨other, -, hmem⟩ | hawake)
  · exact hunpopped (Or.inl ⟨other, hhandle⟩)
  · exact hunpopped (Or.inr ⟨other, hmem⟩)
  · rcases hrest task with hidle | ⟨-, -, -, hasleep⟩
    · rw [hidle] at hpc
      cases hpc
    · rw [hasleep] at hawake
      cases hawake

include hacc

omit [Fintype τ] in
/-- Where nobody runs, has the lock or was woken, nobody waits. -/
theorem idle_of_rest (task : τ) : pc task = .idle := by
  have hreaders : readers = ∅ := by
    rw [Finset.eq_empty_iff_forall_notMem]
    intro other hmem
    rcases (hacc.roles other).reads.mpr hmem with hreads | ⟨-, hgranted⟩
    · rcases hrest other with hpc | ⟨queue, hpc, -⟩ <;> rw [hpc] at hreads <;> cases hreads
    · rcases hrest other with hpc | ⟨queue, hpc, -⟩
      · have hreads := (hacc.roles other).reads.mpr hmem
        rw [hpc] at hreads
        rcases hreads with h | ⟨h, -⟩ <;> cases h
      · exact not_granted_of_rest hco hrest hpc hgranted
  have howner : owner = none := by
    cases howner : owner with
    | none => rfl
    | some other =>
        have howns := (hacc.roles other).owns.mpr howner
        rcases hrest other with hpc | ⟨queue, hpc, -⟩
        · rw [hpc] at howns
          rcases howns with h | ⟨h, -⟩ <;> cases h
        · rcases howns with howns | ⟨-, hgranted⟩
          · rw [hpc] at howns
            cases howns
          · exact absurd hgranted (not_granted_of_rest hco hrest hpc)
  have hwriters := hacc.books.free howner hreaders
  have hread : readQueue board = [] :=
    (hacc.queue hwriters).resolve_right fun ⟨other, hpops⟩ => by
      simp [hacc.not_pops hreaders other] at hpops
  rcases hrest task with hpc | ⟨queue, hpc, hstage, hasleep⟩
  · exact hpc
  · have hlisted := (hco.listed_or_popped (Or.inr hstage) hasleep).resolve_right
      (not_popped_of_rest hco hrest task)
    rcases hlisted with ⟨_, hmem⟩ | ⟨_, queue', hmem⟩
    · have hmem' : task ∈ inbox board := hmem
      rw [hacc.inbox hwriters] at hmem'
      cases hmem'
    · cases queue' with
      | read =>
          have hmem' : task ∈ readQueue board := hmem
          rw [hread] at hmem'
          cases hmem'
      | write =>
          have hwaits := Accounts.waits_of_queued hco hmem
          have hwriter : task ∈ writers := by
            apply hacc.mem_writers
            rw [hpc] at hwaits ⊢
            cases hwaits
            rfl
          rw [hwriters] at hwriter
          simp at hwriter

end Rest

theorem books_of_verified
    (hreach : (machine : Machine (HeapSystem τ Unit Queue ℕ ω Unit (Point τ)) _
      _).Reachable sys)
    (hverified : sys.lists.Verified client holds (fun board _ pc => Inv board pc)) :
    KeepsBooks sys := by
  obtain ⟨-, hrep⟩ := System.lists_of_reachable hreach
  obtain ⟨before, hlists, -⟩ := hrep.lists
  have hco := hverified.coherent
  obtain ⟨hsafe, -, -, readers, writers, owner, hacc⟩ := hverified
  have hreading (task : τ) : Reading sys task ↔ task ∈ readers := (hacc.roles task).reads
  have hwriting (task : τ) : Writing sys task ↔ task ∈ writers ∧ owner = some task :=
    (owner_iff hacc).symm
  have hguard (task : τ) (hpc : sys.pc task = .guard .write) : owner = some task :=
    ((hwriting task).mp (Or.inl hpc)).2
  refine ⟨hsafe, fun task other queue htask hother => ?_, ?_, ?_, fun task htask other => ?_,
    fun hzero => ?_, fun hquiet => ?_⟩
  · have howner := hguard task htask
    cases queue with
    | read =>
        have hreader : other ∈ readers := (hreading other).mp (Or.inl (by rw [hother]; rfl))
        rw [hacc.readers_eq_empty howner] at hreader
        simp at hreader
    | write =>
        have hsame := hguard other hother
        rw [howner] at hsame
        exact Option.some.inj hsame
  · have hset : {task | Reading sys task} = (readers : Set τ) := by
      ext task
      exact hreading task
    rw [hset, Set.ncard_coe_finset]
    exact hacc.books.readerCount
  · have hset : {task | Writing sys task} =
        ((writers.filter fun writer => owner = some writer : Finset τ) : Set τ) := by
      ext task
      rw [Finset.mem_coe, Finset.mem_filter]
      exact hwriting task
    rw [hset, Set.ncard_coe_finset, ← card_writers hacc hco]
    exact hacc.books.writerCount
  · have howner := ((hwriting task).mp htask).2
    constructor
    · rw [hreading, hacc.readers_eq_empty howner]
      simp
    · intro hother
      have hsame := ((hwriting other).mp hother).2
      rw [howner] at hsame
      exact (Option.some.inj hsame).symm
  · have hwriters : writers = ∅ := hacc.writers_eq_empty hzero
    have hwrite : sys.world.lists.store.queues () Queue.write = [] := by
      rw [List.eq_nil_iff_forall_not_mem]
      intro writer hmem
      have hqueued : writer ∈ queuedWriters sys.lists.world.board :=
        List.mem_append_right _ hmem
      have hwriter := ((mem_queuedWriters hacc hco).mp hqueued).1
      rw [hwriters] at hwriter
      simp at hwriter
    refine ⟨?_, ?_, fun hpops => ?_⟩
    · rw [hlists.top]
      exact List.head?_eq_none_iff.mpr (hacc.inbox hwriters)
    · rw [hlists.isEmpty]
      exact List.isEmpty_iff.mpr hwrite
    · rw [hlists.isEmpty]
      refine List.isEmpty_iff.mpr ((hacc.queue hwriters).resolve_right ?_)
      rintro ⟨other, hother⟩
      have hnone : (sys.pc other).pops = true := hother
      rw [hpops other] at hnone
      cases hnone
  · refine idle_of_rest hacc hco fun task => ?_
    rcases hquiet task with hpc | ⟨queue, hpc, hphase, hasleep⟩
    · exact Or.inl hpc
    · have hphase' : sys.lists.world.phase task = .pending := hphase
      exact Or.inr ⟨queue, hpc, by simp [World.board, hphase', Phase.stage], hasleep⟩

/-- In every run the reader-writer lock excludes, counts exactly and strands
nobody. -/
theorem counts_of_reachable (hcard : Fintype.card τ < 2 ^ 32)
    (hreach : (machine : Machine (HeapSystem τ Unit Queue ℕ ω Unit (Point τ)) _
      _).Reachable sys) : KeepsBooks sys :=
  books_of_verified hreach (verified_of_reachable hcard hreach)

/-- A writer hands the lock to the reader that waited for it. -/
theorem counts_of_downgrade :
    ∃ sys : HeapSystem (Fin 2) Unit Queue ℕ Unit Unit (Point (Fin 2)),
      sys.pc 0 = .writeUnlock .wakeReader ∧ sys.pc 1 = .waiting .read ∧ KeepsBooks sys := by
  let call (task : Fin 2) : Fin 2 × Label Call Unit := (task, .call false ())
  have hrun : ((machine : Machine (HeapSystem (Fin 2) Unit Queue ℕ Unit
    Unit (Point (Fin 2))) _ _).run
      ([(0, .start .write), call 0, call 0, call 0,
        (1, .start .read), call 1, call 1, call 1, call 1, (0, .start .dropGuard)] ++
        List.replicate 12 (call 0))).map (fun result => (result.1.pc 0, result.1.pc 1)) =
      some (.writeUnlock .wakeReader, .waiting .read) := by decide +kernel
  obtain ⟨result, hresult, hpoints⟩ := Option.map_eq_some_iff.mp hrun
  rw [Prod.mk.injEq] at hpoints
  exact ⟨result.1, hpoints.1, hpoints.2,
    counts_of_reachable (by decide) (machine.reachable_of_run _ hresult)⟩

end RwLock

end AsyncMutex

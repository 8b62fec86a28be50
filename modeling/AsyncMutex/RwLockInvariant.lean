import AsyncMutex.RwLockProgram
import AsyncMutex.Coherence
import Mathlib.Data.Fintype.Card

/-!
# The invariant of the reader-writer lock

The word counts two sets of tasks: the readers that have the lock or were
granted it, with the placeholder of a downgrade, and the writers.  At most one
task owns the lock for writing: it has the guard, or it is about to pop a
writer, or it was popped.
-/

namespace AsyncMutex

namespace RwLock

variable {τ : Type}

/-! ## What a program point says -/

/-- `read_unlock` has not yet done its releasing compare-exchange. -/
def ReadUnlock.reads : ReadUnlock τ → Bool
  | .load => true
  | .check _ => true
  | .borrow _ => true
  | .loop _ => true
  | _ => false

/-- `write_unlock` has downgraded and not yet counted the new readers. -/
def WriteUnlock.reads : WriteUnlock τ → Bool
  | .popWriter _ => true
  | .popMany _ => true
  | .releaseReaders _ => true
  | .count _ => true
  | .countLoop _ _ => true
  | _ => false

/-- The code at this point counts as a reader. -/
def Point.reads : Point τ → Bool
  | .guard .read => true
  | .readUnlock point => point.reads
  | .writeUnlock point => point.reads
  | _ => false

/-- `write_unlock` has not yet done its releasing compare-exchange. -/
def WriteUnlock.writes : WriteUnlock τ → Bool
  | .lock => true
  | .borrow => true
  | .load => true
  | .isEmpty _ => true
  | .loop _ _ => true
  | .free _ _ => true
  | .reborrow _ _ => true
  | _ => false

/-- The code at this point counts as a writer. -/
def Point.writes : Point τ → Bool
  | .guard .write => true
  | .entered .write => true
  | .waiting .write => true
  | .writeUnlock point => point.writes
  | _ => false

/-- The code at this point has the lock for writing, or is about to pop the
next writer. -/
def Point.owns : Point τ → Bool
  | .guard .write => true
  | .readUnlock (.pop _) => true
  | .writeUnlock .pop => true
  | .writeUnlock point => point.writes
  | _ => false

/-- The queue of a future whose compare-exchange succeeded. -/
def Point.waits : Point τ → Option Queue
  | .entered queue => some queue
  | .waiting queue => some queue
  | _ => none

/-- The readers of the handle list have the lock. -/
def Point.counted : Point τ → Bool
  | .writeUnlock .next => true
  | .writeUnlock .wakeReader => true
  | _ => false

/-- The downgrade has not yet popped the readers. -/
def Point.pops : Point τ → Bool
  | .writeUnlock (.popWriter _) => true
  | .writeUnlock (.popMany _) => true
  | _ => false

/-- The last reader is about to hand the lock to a writer. -/
def Point.Leads : Point τ → Prop
  | .readUnlock (.check current) => (atomOf current).readers = 1 ∧ 0 < (atomOf current).writers
  | .readUnlock (.borrow _) => True
  | .readUnlock (.loop _) => True
  | _ => False

/-- What the snapshot at a program point says. -/
def Snapshot : Point τ → Prop
  | .readUnlock (.check current) => (atomOf current).readers ≠ 0
  | .readUnlock (.pop writers) => 0 < writers
  | .readUnlock .popReader => False
  | .readUnlock .leave => False
  | .writeUnlock (.isEmpty current) => (atomOf current).readers = 0 ∧ (atomOf current).writers ≠ 0
  | .writeUnlock (.loop _ current) => (atomOf current).readers = 0 ∧ (atomOf current).writers ≠ 0
  | .writeUnlock (.free hasReaders current) => Alone hasReaders current
  | .writeUnlock (.reborrow _ current) =>
      (atomOf current).readers = 0 ∧ (atomOf current).writers ≠ 0
  | .writeUnlock (.countLoop count _) => count ≠ 0
  | _ => True

/-- What the queues have at a program point. -/
def Stocked (readQueue writeQueue : List τ) : Point τ → Prop
  | .readUnlock (.pop _) => writeQueue ≠ []
  | .writeUnlock (.loop hasReaders _) => hasReaders = true ↔ readQueue ≠ []
  | .writeUnlock (.free hasReaders _) => hasReaders = true ↔ readQueue ≠ []
  | .writeUnlock (.reborrow hasReaders _) => hasReaders = true ↔ readQueue ≠ []
  | .writeUnlock (.popWriter _) => writeQueue = [] ∧ readQueue ≠ []
  | .writeUnlock (.popMany _) => readQueue ≠ []
  | .writeUnlock .pop => writeQueue ≠ []
  | _ => True

/-- What the handle list has at a program point. -/
def Batched (batch : List τ) : Point τ → Prop
  | .writeUnlock (.releaseReaders _) => batch ≠ []
  | .writeUnlock (.count _) => batch ≠ []
  | .writeUnlock (.countLoop count _) => batch.length = count
  | _ => True

/-- The queues matter only to a task that has borrowed them or owns the lock. -/
theorem Stocked.of_idle {readQueue writeQueue : List τ} {point : Point τ}
    (hborrow : (holds point).borrow = none) (howns : point.owns = false) :
    Stocked readQueue writeQueue point := by
  cases point with
  | readUnlock point => cases point <;> simp_all [Stocked, holds, readUnlockHolds]
  | writeUnlock point =>
      cases point <;> simp_all [Stocked, holds, writeUnlockHolds, Point.owns, WriteUnlock.writes]
  | _ => trivial

/-- The queues matter only to a task with the read lock of the futex. -/
theorem Stocked.of_unguarded {readQueue writeQueue : List τ} {point : Point τ}
    (hreads : (holds point).reads = []) : Stocked readQueue writeQueue point := by
  cases point with
  | readUnlock point => cases point <;> simp_all [Stocked, holds, readUnlockHolds]
  | writeUnlock point => cases point <;> simp_all [Stocked, holds, writeUnlockHolds]
  | _ => trivial

/-! ## The invariant -/

abbrev LockBoard (τ : Type) := Board τ Unit Queue ℕ

def word (board : LockBoard τ) : Atom := .decode (board.atom ())

def inbox (board : LockBoard τ) : List τ := board.store.inbox ()

def readQueue (board : LockBoard τ) : List τ := board.store.queues () .read

def writeQueue (board : LockBoard τ) : List τ := board.store.queues () .write

/-- The waiter of the task was popped and has the lock. -/
def Granted (board : LockBoard τ) (pc : τ → Point τ) (task : τ) : Prop :=
  (∃ other, board.handle other = some task) ∨
    (∃ other, (pc other).counted = true ∧ task ∈ board.store.list other) ∨
      board.awake task = true

def Reads (granted : Prop) (point : Point τ) : Prop :=
  point.reads = true ∨ point.waits = some .read ∧ granted

def Owns (granted : Prop) (point : Point τ) : Prop :=
  point.owns = true ∨ point.waits = some .write ∧ granted

/-- The halves of the word suffice for the readers and for the writers. -/
structure Few (board : LockBoard τ) (pc : τ → Point τ) : Prop where
  readers : ∀ tasks : Finset τ, (∀ task ∈ tasks, Reads (Granted board pc task) (pc task)) →
    tasks.card < 2 ^ 32
  writers : ∀ tasks : Finset τ, (∀ task ∈ tasks, (pc task).writes = true) →
    tasks.card < 2 ^ 32

theorem few_of_card [Fintype τ] (hcard : Fintype.card τ < 2 ^ 32) (board : LockBoard τ)
    (pc : τ → Point τ) : Few board pc where
  readers tasks _ := Nat.lt_of_le_of_lt (Finset.card_le_univ tasks) hcard
  writers tasks _ := Nat.lt_of_le_of_lt (Finset.card_le_univ tasks) hcard

/-- What a task is to the lock. -/
structure Role (readers writers : Finset τ) (owner : Option τ) (task : τ) (granted : Prop)
    (point : Point τ) : Prop where
  reads : Reads granted point ↔ task ∈ readers
  writes : point.writes = true ↔ task ∈ writers
  owns : Owns granted point ↔ owner = some task

/-- A point that does not wait has its role by itself. -/
theorem Role.move {readers writers : Finset τ} {owner : Option τ} {task : τ}
    {granted granted' : Prop} {point point' : Point τ}
    (hrole : Role readers writers owner task granted point)
    (hreads : point'.reads = point.reads) (hwrites : point'.writes = point.writes)
    (howns : point'.owns = point.owns) (hwaits : point.waits = none)
    (hwaits' : point'.waits = none) : Role readers writers owner task granted' point' := by
  obtain ⟨hreads', hwrites', howns'⟩ := hrole
  simp only [Reads, Owns, hwaits, reduceCtorEq, false_and, or_false] at hreads' howns'
  constructor
  · simp [Reads, hwaits', hreads, hreads']
  · rw [hwrites]
    exact hwrites'
  · simp [Owns, hwaits', howns, howns']

/-- The word counts the readers and the writers. -/
structure Books (atom : Atom) (readers writers : Finset τ) (owner : Option τ) : Prop where
  readerCount : atom.readers = readers.card
  writerCount : atom.writers = writers.card
  exclusive : owner ≠ none → readers = ∅
  /-- A free lock has no queued writers. -/
  free : owner = none → readers = ∅ → writers = ∅

structure PointInv (board : LockBoard τ) (task : τ) (point : Point τ) : Prop where
  leads : point.Leads → (word board).readers = 1 ∧ 0 < (word board).writers
  snapshot : Snapshot point
  stocked : Stocked (readQueue board) (writeQueue board) point
  batched : Batched (board.store.list task) point

structure Accounts (board : LockBoard τ) (pc : τ → Point τ) (readers writers : Finset τ)
    (owner : Option τ) : Prop where
  roles : ∀ task, Role readers writers owner task (Granted board pc task) (pc task)
  books : Books (word board) readers writers owner
  points : ∀ task, PointInv board task (pc task)
  inbox : writers = ∅ → inbox board = []
  queue : writers = ∅ → readQueue board = [] ∨ ∃ task, (pc task).pops = true
  batches : ∀ task waiter, waiter ∈ board.store.list task → (pc waiter).waits = some .read
  /-- A writer that sleeps is not dropped. -/
  dropping : ∀ task, board.stage task = .dropping → pc task = .waiting .write →
    board.awake task = true

def Inv (board : LockBoard τ) (pc : τ → Point τ) : Prop :=
  ∃ readers writers owner, Accounts board pc readers writers owner

/-- A future of `write` is dropped only when it was woken: `write_abort` is
`todo!()`. -/
def usage : Usage τ (Point τ) where
  mayDrop point awake :=
    match point with
    | .waiting .write => awake
    | _ => true

namespace Accounts

variable {board board' : LockBoard τ} {pc : τ → Point τ}
  {readers writers : Finset τ} {owner : Option τ} {task : τ}

/-- After a step of `task`, with what it says about the other tasks. -/
theorem of_update [DecidableEq τ] {pc' : Point τ} {readers' writers' : Finset τ} {owner' : Option τ}
    (hrole : Role readers' writers' owner' task
      (Granted board' (Function.update pc task pc') task) pc')
    (hroles : ∀ other, other ≠ task → Role readers' writers' owner' other
      (Granted board' (Function.update pc task pc') other) (pc other))
    (hbooks : Books (word board') readers' writers' owner')
    (hpoint : PointInv board' task pc')
    (hpoints : ∀ other, other ≠ task → PointInv board' other (pc other))
    (hinbox : writers' = ∅ → RwLock.inbox board' = [])
    (hqueue : writers' = ∅ → readQueue board' = [] ∨ pc'.pops = true ∨
      ∃ other, other ≠ task ∧ (pc other).pops = true)
    (hbatches : ∀ other waiter, waiter ∈ board'.store.list other →
      (Function.update pc task pc' waiter).waits = some .read)
    (hdropping : ∀ other, board'.stage other = .dropping →
      Function.update pc task pc' other = .waiting .write → board'.awake other = true) :
    Accounts board' (Function.update pc task pc') readers' writers' owner' where
  roles := (Function.forall_update_iff pc fun other point =>
    Role readers' writers' owner' other
      (Granted board' (Function.update pc task pc') other) point).mpr ⟨hrole, hroles⟩
  books := hbooks
  points := (Function.forall_update_iff pc fun other point =>
    PointInv board' other point).mpr ⟨hpoint, hpoints⟩
  inbox := hinbox
  queue hempty := by
    rcases hqueue hempty with hnone | hpops | ⟨other, hother, hpops⟩
    · exact Or.inl hnone
    · exact Or.inr ⟨task, by simpa using hpops⟩
    · exact Or.inr ⟨other, by simpa [Function.update_of_ne hother] using hpops⟩
  batches := hbatches
  dropping := hdropping

/-- Who has the lock after a step that pops and wakes nobody. -/
theorem granted_iff [DecidableEq τ] {pc' : Point τ} {other : τ}
    (hhandle : board'.handle = board.handle)
    (hlist : ∀ third, (pc third).counted = true →
      board'.store.list third = board.store.list third)
    (hcounted : pc'.counted = (pc task).counted)
    (hawake : board'.awake other = board.awake other) :
    Granted board' (Function.update pc task pc') other ↔ Granted board pc other := by
  have hsame (third : τ) : (Function.update pc task pc' third).counted = (pc third).counted := by
    rw [Function.update_apply]
    split
    case isTrue heq => rw [heq, hcounted]
    case isFalse => rfl
  have hlists : (∃ third, (pc third).counted = true ∧ other ∈ board'.store.list third) ↔
      ∃ third, (pc third).counted = true ∧ other ∈ board.store.list third := by
    apply exists_congr
    intro third
    apply and_congr_right
    intro hthird
    rw [hlist third hthird]
  simp only [Granted, hhandle, hawake, hsame, hlists]

theorem point_congr {point : Point τ} {other : τ} (hpoint : PointInv board other point)
    (hword : word board' = word board) (hread : readQueue board' = readQueue board)
    (hwrite : writeQueue board' = writeQueue board)
    (hlist : board'.store.list other = board.store.list other) :
    PointInv board' other point := by
  obtain ⟨hleads, hsnapshot, hstocked, hbatched⟩ := hpoint
  constructor
  · rw [hword]
    exact hleads
  · exact hsnapshot
  · rw [hread, hwrite]
    exact hstocked
  · rw [hlist]
    exact hbatched

/-- A step of `task` that leaves the word, the queues and the roles as they are. -/
theorem keep [DecidableEq τ] (hacc : Accounts board pc readers writers owner) {pc' : Point τ}
    (hatom : board'.atom = board.atom) (hinbox : RwLock.inbox board' = RwLock.inbox board)
    (hread : readQueue board' = readQueue board) (hwrite : writeQueue board' = writeQueue board)
    (hlist : ∀ other, other ≠ task → board'.store.list other = board.store.list other)
    (hsub : ∀ waiter ∈ board'.store.list task, waiter ∈ board.store.list task)
    (hgranted : ∀ other, other ≠ task →
      (Granted board' (Function.update pc task pc') other ↔ Granted board pc other))
    (hrole : Role readers writers owner task
      (Granted board' (Function.update pc task pc') task) pc')
    (hpoint : PointInv board' task pc')
    (hpops : pc'.pops = (pc task).pops) (hwaits : pc'.waits = (pc task).waits ∨
      ∀ other, task ∉ board.store.list other)
    (hdropping : ∀ other, board'.stage other = .dropping →
      Function.update pc task pc' other = .waiting .write → board'.awake other = true) :
    Accounts board' (Function.update pc task pc') readers writers owner := by
  have hword : word board' = word board := by simp only [word, hatom]
  refine of_update hrole (fun other hother => ?_) ?_ hpoint (fun other hother => ?_) ?_ ?_ ?_
    hdropping
  · obtain ⟨hreads, hwrites, howns⟩ := hacc.roles other
    exact ⟨by rw [Reads, hgranted other hother]; exact hreads, hwrites,
      by rw [Owns, hgranted other hother]; exact howns⟩
  · rw [hword]
    exact hacc.books
  · exact point_congr (hacc.points other) hword hread hwrite (hlist other hother)
  · rw [hinbox]
    exact hacc.inbox
  · rw [hread]
    intro hempty
    rcases hacc.queue hempty with hnone | ⟨other, hother⟩
    · exact Or.inl hnone
    · by_cases heq : other = task
      · rw [heq, ← hpops] at hother
        exact Or.inr (Or.inl hother)
      · exact Or.inr (Or.inr ⟨other, heq, hother⟩)
  · intro other waiter hmem
    have hmem' : waiter ∈ board.store.list other := by
      by_cases hother : other = task
      · subst hother
        exact hsub waiter hmem
      · rw [← hlist other hother]
        exact hmem
    rw [Function.update_apply]
    split
    case isTrue heq =>
      subst heq
      rcases hwaits with hwaits | hunlisted
      · rw [hwaits]
        exact hacc.batches other waiter hmem'
      · exact absurd hmem' (hunlisted other)
    case isFalse => exact hacc.batches other waiter hmem'

/-- The code goes on, and the board changes in nothing that matters here. -/
theorem advance [DecidableEq τ] (hacc : Accounts board pc readers writers owner) {pc' : Point τ}
    (hatom : board'.atom = board.atom) (hstore : board'.store = board.store)
    (hhandle : board'.handle = board.handle) (hawake : board'.awake = board.awake)
    (hreads : pc'.reads = (pc task).reads) (hwrites : pc'.writes = (pc task).writes)
    (howns : pc'.owns = (pc task).owns) (hwaits : pc'.waits = (pc task).waits)
    (hcounted : pc'.counted = (pc task).counted) (hpops : pc'.pops = (pc task).pops)
    (hpoint : PointInv board task pc')
    (hstage : ∀ other, other ≠ task → board'.stage other = board.stage other)
    (hdropping : pc' = .waiting .write → board'.stage task ≠ .dropping) :
    Accounts board' (Function.update pc task pc') readers writers owner := by
  have hgranted (other : τ) :
      Granted board' (Function.update pc task pc') other ↔ Granted board pc other :=
    granted_iff hhandle (fun _ _ => by rw [hstore]) hcounted (by rw [hawake])
  have hread : readQueue board' = readQueue board := by rw [readQueue, readQueue, hstore]
  have hwrite : writeQueue board' = writeQueue board := by
    rw [writeQueue, writeQueue, hstore]
  refine hacc.keep hatom (by rw [RwLock.inbox, RwLock.inbox, hstore]) hread hwrite
    (fun _ _ => by rw [hstore]) (fun waiter hmem => ?_) (fun other _ => hgranted other) ?_
    (point_congr hpoint (by rw [word, word, hatom]) hread hwrite (by rw [hstore])) hpops
    (Or.inl hwaits) ?_
  · rw [hstore] at hmem
    exact hmem
  · obtain ⟨hreads', hwrites', howns'⟩ := hacc.roles task
    refine ⟨?_, ?_, ?_⟩
    · rw [Reads, hgranted, hreads, hwaits]
      exact hreads'
    · rw [hwrites]
      exact hwrites'
    · rw [Owns, hgranted, howns, hwaits]
      exact howns'
  · intro other hstage' hpc
    rw [Function.update_apply] at hpc
    split at hpc
    case isTrue heq =>
      rw [heq] at hstage'
      exact absurd hstage' (hdropping hpc)
    case isFalse hother =>
      rw [hawake]
      rw [hstage other hother] at hstage'
      exact hacc.dropping other hstage' hpc

/-! ## Who excludes whom -/

theorem mem_readers (hacc : Accounts board pc readers writers owner)
    (hreads : (pc task).reads = true) : task ∈ readers :=
  (hacc.roles task).reads.mp (Or.inl hreads)

theorem mem_writers (hacc : Accounts board pc readers writers owner)
    (hwrites : (pc task).writes = true) : task ∈ writers :=
  (hacc.roles task).writes.mp hwrites

theorem owner_eq (hacc : Accounts board pc readers writers owner)
    (howns : (pc task).owns = true) : owner = some task :=
  (hacc.roles task).owns.mp (Or.inl howns)

theorem owner_eq_none (hacc : Accounts board pc readers writers owner) {other : τ}
    (hmem : other ∈ readers) : owner = none := by
  by_contra howner
  rw [hacc.books.exclusive howner] at hmem
  simp at hmem

theorem readers_eq_empty (hacc : Accounts board pc readers writers owner)
    (howns : owner = some task) : readers = ∅ :=
  hacc.books.exclusive (by rw [howns]; simp)

/-- The other tasks neither own the lock nor are about to. -/
theorem not_owns (hacc : Accounts board pc readers writers owner) {other : τ}
    (howner : owner ≠ some other) : (pc other).owns = false := by
  by_contra howns
  exact howner (hacc.owner_eq (by simpa using howns))

/-- The reader that is about to hand the lock over is the only one. -/
theorem readers_of_leads (hacc : Accounts board pc readers writers owner)
    (hleads : (pc task).Leads) : readers = {task} := by
  have hreads : (pc task).reads = true := by
    cases hpc : pc task with
    | readUnlock point => cases point <;> simp_all [Point.Leads, Point.reads, ReadUnlock.reads]
    | _ => simp [hpc, Point.Leads] at hleads
  have hone : readers.card = 1 :=
    hacc.books.readerCount.symm.trans ((hacc.points task).leads hleads).1
  obtain ⟨other, hother⟩ := Finset.card_eq_one.mp hone
  have hmem := hacc.mem_readers hreads
  rw [hother, Finset.mem_singleton] at hmem
  rw [hother, hmem]

/-- While a task leads, no other one can change the number of readers. -/
theorem not_leads (hacc : Accounts board pc readers writers owner) {other : τ}
    (hother : other ≠ task) (htask : task ∈ readers ∨ owner = some task) :
    ¬ (pc other).Leads := by
  intro hleads
  have hreaders := hacc.readers_of_leads hleads
  rcases htask with hmem | howner
  · rw [hreaders, Finset.mem_singleton] at hmem
    exact hother hmem.symm
  · have hempty := hacc.readers_eq_empty howner
    rw [hreaders] at hempty
    simp at hempty

/-! ## Where the waiters are -/

section Coherent

variable (hco : (client : Client τ Unit _ _ Unit _ _).Coherent holds board pc)
include hco

/-- Whoever is in some list waits, for the lock that its queue says. -/
theorem waits_of_listed [DecidableEq τ] (hlisted : board.Listed task ∨ board.Popped task) :
    (pc task).waits = some (board.store.queue task) := by
  have hslot := (hco.fits task).slot
  have hused : ¬ (holds (pc task)).slot.Unused := by
    intro hunused
    obtain ⟨hunlisted, hunpopped⟩ := hco.unlisted_of_unused hunused
    exact hlisted.elim hunlisted hunpopped
  cases hpc : pc task with
  | entered queue =>
      rw [hpc] at hslot
      rw [hslot.2]
      rfl
  | waiting queue =>
      rw [hpc] at hslot
      rw [hslot.2]
      rfl
  | readUnlock point =>
      rw [hpc] at hused
      cases point <;> exact absurd trivial hused
  | writeUnlock point =>
      rw [hpc] at hused
      cases point <;> exact absurd trivial hused
  | _ =>
      rw [hpc] at hused
      exact absurd trivial hused

theorem queue_eq {queue : Queue} (hmem : task ∈ board.store.queues () queue) :
    board.store.queue task = queue := by
  obtain ⟨place, hplaced⟩ := hco.placed
  exact hplaced.places.index () queue task ((hplaced.places.queues () queue task).mp hmem)

/-- The waiters of a queue wait for the lock of that queue. -/
theorem waits_of_queued [DecidableEq τ] {queue : Queue}
    (hmem : task ∈ board.store.queues () queue) :
    (pc task).waits = some queue := by
  rw [waits_of_listed hco (Or.inl (Or.inr ⟨(), queue, hmem⟩)), queue_eq hco hmem]

theorem not_granted_of_listed (hlisted : board.Listed task) : ¬ Granted board pc task := by
  have hunpopped : ¬ board.Popped task := fun hpopped =>
    hco.unlisted_of_popped hpopped hlisted
  rintro (⟨other, hhandle⟩ | ⟨other, -, hmem⟩ | hawake)
  · exact hunpopped (Or.inl ⟨other, hhandle⟩)
  · exact hunpopped (Or.inr ⟨other, hmem⟩)
  · rw [hco.awake_of_listed hlisted] at hawake
    cases hawake

/-- The waiters of a downgrade do not have the lock before they are counted. -/
theorem not_granted_of_uncounted {other : τ} (hmem : task ∈ board.store.list other)
    (hcounted : (pc other).counted = false) : ¬ Granted board pc task := by
  rintro (⟨third, hhandle⟩ | ⟨third, hthird, hmem'⟩ | hawake)
  · exact hco.not_list_of_handle hhandle hmem
  · rw [hco.eq_of_list hmem' hmem, hcounted] at hthird
    cases hthird
  · rw [hco.awake_of_popped (Or.inr ⟨other, hmem⟩)] at hawake
    cases hawake

/-- A writer that does not own the lock is queued. -/
theorem writer_listed (hacc : Accounts board pc readers writers owner) {writer : τ}
    (hwriter : writer ∈ writers) (howner : owner ≠ some writer) :
    (writer ∈ RwLock.inbox board ∨ writer ∈ writeQueue board) ∧
      board.store.queue writer = .write := by
  have hwrites : (pc writer).writes = true := (hacc.roles writer).writes.mpr hwriter
  have hidle := hacc.not_owns howner
  have hwaits : (pc writer).waits = some .write := by
    cases hpc : pc writer with
    | guard queue => cases queue <;> simp_all [Point.writes, Point.owns]
    | entered queue => cases queue <;> simp_all [Point.writes, Point.waits]
    | waiting queue => cases queue <;> simp_all [Point.writes, Point.waits]
    | writeUnlock point => cases point <;> simp_all [Point.writes, Point.owns, WriteUnlock.writes]
    | _ => simp_all [Point.writes]
  have hgranted : ¬ Granted board pc writer := fun hgranted =>
    howner ((hacc.roles writer).owns.mp (Or.inr ⟨hwaits, hgranted⟩))
  have hasleep : board.awake writer = false := by
    by_contra hawake
    exact hgranted (Or.inr (Or.inr (by simpa using hawake)))
  have hslot := (hco.fits writer).slot
  have hstage : (board.stage writer = .entered ∨ board.stage writer = .waiting) ∧
      board.store.queue writer = .write := by
    cases hpc : pc writer with
    | entered queue =>
        rw [hpc] at hslot hwaits
        cases hwaits
        exact ⟨Or.inl hslot.1, hslot.2⟩
    | waiting queue =>
        rw [hpc] at hslot hwaits
        cases hwaits
        refine ⟨Or.inr (hslot.1.resolve_right fun hdropping => ?_), hslot.2⟩
        rw [hacc.dropping writer hdropping hpc] at hasleep
        cases hasleep
    | _ => simp [hpc, Point.waits] at hwaits
  refine ⟨?_, hstage.2⟩
  rcases hco.listed_or_popped hstage.1 hasleep with (⟨_, hmem⟩ | ⟨_, queue, hmem⟩) |
      ⟨other, hhandle⟩ | ⟨other, hmem⟩
  · exact Or.inl hmem
  · have hqueue := queue_eq hco hmem
    rw [hstage.2] at hqueue
    subst hqueue
    exact Or.inr hmem
  · exact absurd (Or.inl ⟨other, hhandle⟩) hgranted
  · have hreader := hacc.batches other writer hmem
    rw [hwaits] at hreader
    cases hreader

/-- Whoever owns the lock is a writer, or is about to pop one. -/
theorem writers_ne_empty [DecidableEq τ] (hacc : Accounts board pc readers writers owner)
    (howner : owner = some task) : writers ≠ ∅ := by
  have howns := (hacc.roles task).owns.mpr howner
  have hqueued (hstock : writeQueue board ≠ []) : writers ≠ ∅ := by
    obtain ⟨writer, hmem⟩ := List.exists_mem_of_ne_nil _ hstock
    have hwaits := waits_of_queued hco hmem
    apply Finset.ne_empty_of_mem (a := writer)
    apply hacc.mem_writers
    cases hpc : pc writer <;> simp_all [Point.waits, Point.writes]
  have hstock := (hacc.points task).stocked
  rcases howns with howns | ⟨hwaits, -⟩
  · cases hpc : pc task with
    | guard queue =>
        cases queue
        · simp [hpc, Point.owns] at howns
        · have hmem : task ∈ writers := hacc.mem_writers (by rw [hpc]; rfl)
          exact Finset.ne_empty_of_mem hmem
    | readUnlock point =>
        cases point with
        | pop count =>
            rw [hpc] at hstock
            exact hqueued hstock
        | _ => simp [hpc, Point.owns] at howns
    | writeUnlock point =>
        cases point with
        | pop =>
            rw [hpc] at hstock
            exact hqueued hstock
        | _ =>
            apply Finset.ne_empty_of_mem (a := task)
            apply hacc.mem_writers
            simp_all [Point.owns, Point.writes]
    | _ => simp [hpc, Point.owns] at howns
  · apply Finset.ne_empty_of_mem (a := task)
    apply hacc.mem_writers
    cases hpc : pc task <;> simp_all [Point.waits, Point.writes]

/-- Only one task has borrowed the queues. -/
theorem borrow_eq_none {other : τ} (hborrow : (holds (pc task)).borrow = some ())
    (hother : other ≠ task) : (holds (pc other)).borrow = none := by
  cases hcase : (holds (pc other)).borrow with
  | none => rfl
  | some futex =>
      have htask := ((hco.fits task).borrow ()).mpr hborrow
      have hboth := ((hco.fits other).borrow ()).mpr hcase
      rw [htask] at hboth
      exact absurd (Option.some.inj hboth).symm hother

/-- A change of the queues by the task that has borrowed them. -/
theorem stocked_other (hacc : Accounts board pc readers writers owner) {other : τ}
    (hborrow : (holds (pc task)).borrow = some ()) (hother : other ≠ task)
    (howner : owner = none ∨ owner = some task) {read write : List τ} :
    Stocked read write (pc other) := by
  apply Stocked.of_idle (borrow_eq_none hco hborrow hother)
  apply hacc.not_owns
  rcases howner with rfl | rfl
  · simp
  · simpa using Ne.symm hother

end Coherent

end Accounts

end RwLock

end AsyncMutex

import AsyncMutex.RwLockInvariant

/-!
# Taking and releasing the reader-writer lock

A task that takes the lock, sleeps on it or gives it back changes the word, and the
readers, the writers and the owner change with it.
-/

namespace AsyncMutex

namespace RwLock

namespace Accounts

variable {τ : Type} {board board' : LockBoard τ} {pc : τ → Point τ}
  {readers writers : Finset τ} {owner : Option τ} {task : τ}

/-! ## Taking the lock and sleeping -/

theorem word_setAtom (board : LockBoard τ) {atom : Atom} (hreaders : atom.readers < 2 ^ 32)
    (hwriters : atom.writers < 2 ^ 32) : word (board.setAtom () atom.encode) = atom := by
  simp [word, Board.setAtom, Atom.decode_encode_of_lt hreaders hwriters]

variable [DecidableEq τ]

/-- `Futex::waiter`. -/
theorem newWaiter (hacc : Accounts board pc readers writers owner) {queue : Queue}
    (hpc : pc task = .waiter queue) (hunlisted : ∀ other, task ∉ board.store.list other) :
    Accounts ((((board.setStore (FutexStore.renew board.store task queue)).setOwner task
      ()).setStage task (.fresh ())).setAwake task false)
      (Function.update pc task (.load queue)) readers writers owner := by
  refine hacc.keep rfl rfl rfl rfl (fun _ _ => rfl) (fun _ h => h) (fun other hother => ?_) ?_
    ⟨fun h => h.elim, trivial, trivial, trivial⟩ ?_ (Or.inr hunlisted) ?_
  · apply granted_iff
    · rfl
    · exact fun _ _ => rfl
    · rw [hpc]
      rfl
    · simp [Board.setAwake, Board.setStage, Board.setOwner, Board.setStore, hother]
  · apply (hacc.roles task).move <;> simp [hpc, Point.reads, Point.writes, Point.owns, Point.waits]
  · rw [hpc]
    rfl
  · intro other hstage hwaiting
    by_cases hother : other = task
    · subst hother
      simp at hwaiting
    · simp only [Board.setAwake, Board.setStage, Board.setOwner, Board.setStore,
        Function.update_of_ne hother] at hstage hwaiting ⊢
      exact hacc.dropping other hstage hwaiting

/-- A step of `task` that changes the word and the queues, and what the task is
to the lock. -/
theorem of_word (hacc : Accounts board pc readers writers owner) {pc' : Point τ}
    {readers' writers' : Finset τ} {owner' : Option τ}
    (hhandle : board'.handle = board.handle) (hlist : board'.store.list = board.store.list)
    (hawake : board'.awake = board.awake) (hstage : board'.stage = board.stage)
    (hcounted : pc'.counted = (pc task).counted)
    (hwaits : (pc task).waits = none) (hwaits' : pc'.waits = none)
    (hreads : pc'.reads = true ↔ task ∈ readers')
    (hwrites : pc'.writes = true ↔ task ∈ writers')
    (howns : pc'.owns = true ↔ owner' = some task)
    (hreaders : ∀ other, other ≠ task → (other ∈ readers' ↔ other ∈ readers))
    (hwriters : ∀ other, other ≠ task → (other ∈ writers' ↔ other ∈ writers))
    (howner : ∀ other, other ≠ task → (owner' = some other ↔ owner = some other))
    (hbooks : Books (word board') readers' writers' owner')
    (hpoint : PointInv board' task pc')
    (hleads : ∀ other, other ≠ task → (pc other).Leads →
      (word board').readers = 1 ∧ 0 < (word board').writers)
    (hstocked : ∀ other, other ≠ task →
      Stocked (readQueue board') (writeQueue board') (pc other))
    (hinbox : writers' = ∅ → RwLock.inbox board' = [])
    (hqueue : writers' = ∅ → readQueue board' = [] ∨ pc'.pops = true ∨
      ∃ other, other ≠ task ∧ (pc other).pops = true) :
    Accounts board' (Function.update pc task pc') readers' writers' owner' := by
  have hgranted (other : τ) :
      Granted board' (Function.update pc task pc') other ↔ Granted board pc other :=
    granted_iff hhandle (fun _ _ => by rw [hlist]) hcounted (by rw [hawake])
  refine of_update ?_ (fun other hother => ?_) hbooks hpoint (fun other hother => ?_) hinbox
    hqueue ?_ ?_
  · constructor
    · simp [Reads, hwaits', hreads]
    · exact hwrites
    · simp [Owns, hwaits', howns]
  · obtain ⟨hreads', hwrites', howns'⟩ := hacc.roles other
    rw [← hgranted other] at hreads' howns'
    exact ⟨hreads'.trans (hreaders other hother).symm, hwrites'.trans (hwriters other hother).symm,
      howns'.trans (howner other hother).symm⟩
  · obtain ⟨-, hsnapshot, -, hbatched⟩ := hacc.points other
    rw [← hlist] at hbatched
    exact ⟨hleads other hother, hsnapshot, hstocked other hother, hbatched⟩
  · intro other waiter hmem
    rw [hlist] at hmem
    have hreader := hacc.batches other waiter hmem
    rw [Function.update_apply]
    split
    case isTrue heq =>
      rw [heq, hwaits] at hreader
      cases hreader
    case isFalse => exact hreader
  · intro other hdropping hpc
    rw [hstage] at hdropping
    rw [Function.update_apply] at hpc
    rw [hawake]
    split at hpc
    case isTrue heq =>
      rw [hpc] at hwaits'
      cases hwaits'
    case isFalse => exact hacc.dropping other hdropping hpc

/-- A step of `task` that changes the word only. -/
theorem of_setAtom (hacc : Accounts board pc readers writers owner) {atom : Atom}
    {pc' : Point τ} {readers' writers' : Finset τ} {owner' : Option τ}
    (hword : word (board.setAtom () atom.encode) = atom)
    (hcounted : pc'.counted = (pc task).counted)
    (hwaits : (pc task).waits = none) (hwaits' : pc'.waits = none)
    (hpops : (pc task).pops = false)
    (hreads : pc'.reads = true ↔ task ∈ readers')
    (hwrites : pc'.writes = true ↔ task ∈ writers')
    (howns : pc'.owns = true ↔ owner' = some task)
    (hreaders : ∀ other, other ≠ task → (other ∈ readers' ↔ other ∈ readers))
    (hwriters : ∀ other, other ≠ task → (other ∈ writers' ↔ other ∈ writers))
    (howner : ∀ other, other ≠ task → (owner' = some other ↔ owner = some other))
    (hbooks : Books atom readers' writers' owner')
    (hpoint : ¬ pc'.Leads ∧ Snapshot pc' ∧ Stocked (readQueue board) (writeQueue board) pc' ∧
      Batched (board.store.list task) pc')
    (hleads : ∀ other, other ≠ task → (pc other).Leads → atom.readers = 1 ∧ 0 < atom.writers)
    (hinbox : writers' = ∅ → RwLock.inbox board = [])
    (hqueue : writers' = ∅ → readQueue board = [] ∨ ∃ other, (pc other).pops = true) :
    Accounts (board.setAtom () atom.encode) (Function.update pc task pc') readers' writers'
      owner' := by
  obtain ⟨hnot, hsnapshot, hstocked, hbatched⟩ := hpoint
  refine hacc.of_word rfl rfl rfl rfl hcounted hwaits hwaits' hreads hwrites howns hreaders
    hwriters howner ?_ ⟨fun h => absurd h hnot, hsnapshot, hstocked, hbatched⟩ ?_
    (fun other _ => (hacc.points other).stocked) hinbox ?_
  · rw [hword]
    exact hbooks
  · rw [hword]
    exact hleads
  · intro hempty
    rcases hqueue hempty with hnone | ⟨other, hother⟩
    · exact Or.inl hnone
    · refine Or.inr (Or.inr ⟨other, ?_, hother⟩)
      rintro rfl
      rw [hpops] at hother
      cases hother

omit [DecidableEq τ] in
theorem writers_eq_empty (hacc : Accounts board pc readers writers owner)
    (hzero : (word board).writers = 0) : writers = ∅ :=
  Finset.card_eq_zero.mp (hacc.books.writerCount.symm.trans hzero)

omit [DecidableEq τ] in
theorem readers_eq_empty_of_zero (hacc : Accounts board pc readers writers owner)
    (hzero : (word board).readers = 0) : readers = ∅ :=
  Finset.card_eq_zero.mp (hacc.books.readerCount.symm.trans hzero)

omit [DecidableEq τ] in
theorem notMem_readers (hacc : Accounts board pc readers writers owner)
    (hreads : (pc task).reads = false) (hwaits : (pc task).waits = none) : task ∉ readers := by
  rw [← (hacc.roles task).reads]
  simp [Reads, hreads, hwaits]

omit [DecidableEq τ] in
theorem notMem_writers (hacc : Accounts board pc readers writers owner)
    (hwrites : (pc task).writes = false) : task ∉ writers := by
  rw [← (hacc.roles task).writes]
  simp [hwrites]

omit [DecidableEq τ] in
/-- The popper of a downgrade is a reader. -/
theorem not_pops (hacc : Accounts board pc readers writers owner) (hempty : readers = ∅)
    (other : τ) : (pc other).pops = false := by
  by_contra hpops
  have hreads : (pc other).reads = true := by
    cases hpc : pc other with
    | writeUnlock point => cases point <;> simp_all [Point.pops, Point.reads, WriteUnlock.reads]
    | _ => simp [hpc, Point.pops] at hpops
  have hmem := hacc.mem_readers hreads
  rw [hempty] at hmem
  simp at hmem

section Coherent

variable (hco : (client : Client τ Unit _ _ Unit _ _).Coherent holds board pc)
include hco

theorem owner_of_empty (hacc : Accounts board pc readers writers owner) (hempty : writers = ∅) :
    owner = none := by
  cases howner : owner with
  | none => rfl
  | some other => exact absurd hempty (writers_ne_empty hco hacc howner)

/-- `read` takes the lock. -/
theorem acquireRead (hacc : Accounts board pc readers writers owner) {current : FutexAtom τ ℕ}
    (hpc : pc task = .loop .read current) (hfree : (word board).writers = 0)
    (hbound : (word board).readers + 1 < 2 ^ 32) :
    Accounts (board.setAtom () (taken .read (word board)).encode)
      (Function.update pc task (.guard .read)) (insert task readers) writers owner := by
  have hempty := hacc.writers_eq_empty hfree
  have hnone := owner_of_empty hco hacc hempty
  have hreader : task ∉ readers :=
    hacc.notMem_readers (by rw [hpc]; rfl) (by rw [hpc]; rfl)
  have hword : word (board.setAtom () (taken .read (word board)).encode) =
      taken .read (word board) := word_setAtom board hbound (by simp [taken])
  refine hacc.of_setAtom hword (by rw [hpc]; rfl) (by rw [hpc]; rfl) rfl (by rw [hpc]; rfl)
    ?_ ?_ ?_ (fun other hother => ?_) (fun _ _ => Iff.rfl) (fun _ _ => Iff.rfl) ?_
    ⟨id, trivial, trivial, trivial⟩ (fun other hother hleads => ?_) hacc.inbox hacc.queue
  · simp [Point.reads]
  · simp [Point.writes, hempty]
  · simp [Point.owns, hnone]
  · simp [hother]
  · constructor
    · rw [Finset.card_insert_of_notMem hreader]
      simp [taken, hacc.books.readerCount]
    · simp [taken, hempty]
    · simp [hnone]
    · simp
  · have hwriters := ((hacc.points other).leads hleads).2
    omega

/-- `write` takes the lock. -/
theorem acquireWrite (hacc : Accounts board pc readers writers owner) {current : FutexAtom τ ℕ}
    (hpc : pc task = .loop .write current) (hfree : word board = ⟨0, 0⟩) :
    Accounts (board.setAtom () (taken .write (word board)).encode)
      (Function.update pc task (.guard .write)) ∅ {task} (some task) := by
  have hempty := hacc.writers_eq_empty (by rw [hfree])
  have hreaders := hacc.readers_eq_empty_of_zero (by rw [hfree])
  have hnone := owner_of_empty hco hacc hempty
  have hword : word (board.setAtom () (taken .write (word board)).encode) =
      taken .write (word board) := word_setAtom board (by simp [taken]) (by simp [taken])
  refine hacc.of_setAtom hword (by rw [hpc]; rfl) (by rw [hpc]; rfl) rfl (by rw [hpc]; rfl)
    ?_ ?_ ?_ (fun other hother => ?_) (fun other hother => ?_) (fun other hother => ?_) ?_
    ⟨id, trivial, trivial, trivial⟩ (fun other hother hleads => ?_) (by simp) (by simp)
  · simp [Point.reads]
  · simp [Point.writes]
  · simp [Point.owns]
  · simp [hreaders]
  · simp [hempty, hother]
  · simp [hnone, Ne.symm hother]
  · constructor <;> simp [taken]
  · have hone := ((hacc.points other).leads hleads).1
    rw [hfree] at hone
    cases hone

/-- The waiter of a task that begins to sleep was not popped. -/
theorem not_granted_of_fresh {queue : Queue} {pc' : τ → Point τ}
    (hslot : (holds (pc task)).slot = .fresh () queue) : ¬ Granted board pc' task := by
  have hunused : (holds (pc task)).slot.Unused := by
    rw [hslot]
    trivial
  have hunpopped := (hco.unlisted_of_unused hunused).2
  rintro (⟨other, hhandle⟩ | ⟨other, -, hmem⟩ | hawake)
  · exact hunpopped (Or.inl ⟨other, hhandle⟩)
  · exact hunpopped (Or.inr ⟨other, hmem⟩)
  · rw [hco.awake_of_fresh hslot] at hawake
    cases hawake

/-- The board after a task put its waiter on the inbox. -/
abbrev pushed (board : LockBoard τ) (task : τ) (atom : Atom) : LockBoard τ :=
  ((board.setAtom () atom.encode).setStore
    (FutexStore.push board.store () task)).setStage task .entered

/-- The loop of `read` or `write` puts its waiter on the inbox. -/
theorem sleep (hacc : Accounts board pc readers writers owner) {queue : Queue}
    {current : FutexAtom τ ℕ} (hpc : pc task = .loop queue current) {atom : Atom}
    {writers' : Finset τ} (hword : word (pushed board task atom) = atom)
    (hwriter : queue = .write ↔ task ∈ writers')
    (hwriters : ∀ other, other ≠ task → (other ∈ writers' ↔ other ∈ writers))
    (hsome : writers' ≠ ∅) (hbooks : Books atom readers writers' owner)
    (hleads : ∀ other, (pc other).Leads → atom.readers = 1 ∧ 0 < atom.writers) :
    Accounts (pushed board task atom) (Function.update pc task (.entered queue)) readers
      writers' owner := by
  have hslot : (holds (pc task)).slot = .fresh () queue := by
    rw [hpc]
    rfl
  have hfresh : ¬ Granted (pushed board task atom) (Function.update pc task (.entered queue))
      task := by
    have hsame : Granted (pushed board task atom) (Function.update pc task (.entered queue))
        task ↔ Granted board pc task := by
      apply granted_iff
      · rfl
      · exact fun _ _ => rfl
      · rw [hpc]
        rfl
      · rfl
    rw [hsame]
    exact not_granted_of_fresh hco hslot
  have hrole := hacc.roles task
  rw [hpc] at hrole
  refine of_update ?_ (fun other hother => ?_) ?_ ?_ (fun other _ => ?_) (absurd · hsome)
    (absurd · hsome) ?_ ?_
  · obtain ⟨hreads', -, howns'⟩ := hrole
    constructor
    · simpa [Reads, hfresh, Point.reads, Point.waits] using hreads'
    · rw [← hwriter]
      cases queue <;> simp [Point.writes]
    · simpa [Owns, hfresh, Point.owns, Point.waits] using howns'
  · obtain ⟨hreads', hwrites', howns'⟩ := hacc.roles other
    have hgranted : Granted (pushed board task atom)
        (Function.update pc task (.entered queue)) other ↔ Granted board pc other := by
      apply granted_iff
      · rfl
      · exact fun _ _ => rfl
      · rw [hpc]
        rfl
      · rfl
    rw [← hgranted] at hreads' howns'
    exact ⟨hreads', hwrites'.trans (hwriters other hother).symm, howns'⟩
  · rw [hword]
    exact hbooks
  · exact ⟨fun h => h.elim, trivial, trivial, trivial⟩
  · obtain ⟨-, hsnapshot', hstocked', hbatched'⟩ := hacc.points other
    refine ⟨?_, hsnapshot', hstocked', hbatched'⟩
    rw [hword]
    exact hleads other
  · intro other waiter hmem
    have hreader := hacc.batches other waiter hmem
    rw [Function.update_apply]
    split
    case isTrue heq =>
      rw [heq, hpc] at hreader
      cases hreader
    case isFalse => exact hreader
  · intro other hstage hwaiting
    by_cases hother : other = task
    · subst hother
      simp at hwaiting
    · rw [Function.update_of_ne hother] at hwaiting
      simp only [pushed, Board.setStage, Function.update_of_ne hother] at hstage
      exact hacc.dropping other hstage hwaiting

end Coherent

/-! ## Releasing the lock -/

/-- The fast path of `read_unlock`. -/
theorem releaseRead (hacc : Accounts board pc readers writers owner) {current : FutexAtom τ ℕ}
    (hpc : pc task = .readUnlock (.check current))
    (hfast : ¬ ((word board).readers = 1 ∧ 0 < (word board).writers)) :
    Accounts (board.setAtom ()
      { word board with readers := (word board).readers - 1 : Atom }.encode)
      (Function.update pc task .idle) (readers.erase task) writers owner := by
  have hreader : task ∈ readers := hacc.mem_readers (by rw [hpc]; rfl)
  have hnone := hacc.owner_eq_none hreader
  have hword : word (board.setAtom ()
      { word board with readers := (word board).readers - 1 : Atom }.encode) =
        { word board with readers := (word board).readers - 1 : Atom } :=
    word_setAtom board (Nat.lt_of_le_of_lt (Nat.sub_le _ _) (Atom.readers_decode_lt _))
      (Atom.writers_decode_lt _)
  have hcard := hacc.books.readerCount
  refine hacc.of_setAtom hword (by rw [hpc]; rfl) (by rw [hpc]; rfl) rfl (by rw [hpc]; rfl)
    ?_ ?_ ?_ (fun other hother => ?_) (fun _ _ => Iff.rfl) (fun _ _ => Iff.rfl) ?_
    ⟨id, trivial, trivial, trivial⟩ (fun other hother hleads => ?_) hacc.inbox hacc.queue
  · simp [Point.reads]
  · have hwriter : task ∉ writers := hacc.notMem_writers (by rw [hpc]; rfl)
    simp [Point.writes, hwriter]
  · simp [Point.owns, hnone]
  · simp [hother]
  · constructor
    · rw [Finset.card_erase_of_mem hreader, ← hcard]
    · exact hacc.books.writerCount
    · simp [hnone]
    · intro _ hempty
      rw [← Finset.card_eq_zero, Finset.card_erase_of_mem hreader] at hempty
      have hpos := Finset.card_pos.mpr ⟨task, hreader⟩
      apply hacc.writers_eq_empty
      omega
  · exact absurd hleads (hacc.not_leads hother (Or.inl hreader))

/-- The last writer frees the lock. -/
theorem releaseWrite (hacc : Accounts board pc readers writers owner) {hasReaders : Bool}
    {current : FutexAtom τ ℕ} (hpc : pc task = .writeUnlock (.free hasReaders current))
    (hone : (word board).writers = 1) (hread : readQueue board = [])
    (hinbox : RwLock.inbox board = []) :
    Accounts (board.setAtom () (Atom.mk 0 0).encode)
      (Function.update pc task (.writeUnlock .done)) ∅ ∅ none := by
  have howner : owner = some task := hacc.owner_eq (by rw [hpc]; rfl)
  have hreaders := hacc.readers_eq_empty howner
  have hwriter : task ∈ writers := hacc.mem_writers (by rw [hpc]; rfl)
  have hsingle : writers = {task} := by
    obtain ⟨other, hother⟩ := Finset.card_eq_one.mp (hacc.books.writerCount.symm.trans hone)
    rw [hother, Finset.mem_singleton] at hwriter
    rw [hother, hwriter]
  have hword : word (board.setAtom () (Atom.mk 0 0).encode) = ⟨0, 0⟩ :=
    word_setAtom board (by simp) (by simp)
  refine hacc.of_setAtom hword (by rw [hpc]; rfl) (by rw [hpc]; rfl) rfl (by rw [hpc]; rfl)
    ?_ ?_ ?_ (fun other hother => ?_) (fun other hother => ?_) (fun other hother => ?_) ?_
    ⟨id, trivial, trivial, trivial⟩ (fun other hother hleads => ?_) (fun _ => hinbox)
    (fun _ => Or.inl hread)
  · simp [Point.reads, WriteUnlock.reads]
  · simp [Point.writes, WriteUnlock.writes]
  · simp [Point.owns, WriteUnlock.writes]
  · simp [hreaders]
  · simp [hsingle, hother]
  · simp [howner, Ne.symm hother]
  · constructor <;> simp
  · exact absurd hleads (hacc.not_leads hother (Or.inr howner))

/-- The board after a compare-exchange that takes the inbox along. -/
abbrev flipped (board : LockBoard τ) (atom : Atom) : LockBoard τ :=
  (board.flip ()).setAtom () atom.encode

omit [DecidableEq τ] in
theorem inbox_flipped (board : LockBoard τ) (atom : Atom) :
    RwLock.inbox (flipped board atom) = [] := by
  simp [RwLock.inbox, Board.flip, Board.setAtom, Board.setStore]

omit [DecidableEq τ] in
theorem readQueue_flipped (board : LockBoard τ) (atom : Atom) :
    readQueue (flipped board atom) = readQueue board ++ board.store.arrivals () .read := by
  simp [readQueue, Board.flip, Board.setAtom, Board.setStore]

omit [DecidableEq τ] in
theorem writeQueue_flipped (board : LockBoard τ) (atom : Atom) :
    writeQueue (flipped board atom) = writeQueue board ++ board.store.arrivals () .write := by
  simp [writeQueue, Board.flip, Board.setAtom, Board.setStore]

omit [DecidableEq τ] in
theorem mem_arrivals {queue : Queue} :
    task ∈ board.store.arrivals () queue ↔
      task ∈ RwLock.inbox board ∧ board.store.queue task = queue := by
  simp [ListStore.arrivals, RwLock.inbox]

section Coherent

variable (hco : (client : Client τ Unit _ _ Unit _ _).Coherent holds board pc)
include hco

omit [DecidableEq τ] in
/-- After the flip a writer that does not own the lock can be popped. -/
theorem writeQueue_ne_nil (hacc : Accounts board pc readers writers owner) {writer : τ}
    (hwriter : writer ∈ writers) (howner : owner ≠ some writer) (atom : Atom) :
    writeQueue (flipped board atom) ≠ [] := by
  obtain ⟨hlisted, hqueue⟩ := writer_listed hco hacc hwriter howner
  apply List.ne_nil_of_mem (a := writer)
  rw [writeQueue_flipped, List.mem_append, mem_arrivals]
  rcases hlisted with hinbox | hqueued
  · exact Or.inr ⟨hinbox, hqueue⟩
  · exact Or.inl hqueued

/-- The last reader is about to pop a writer. -/
theorem lead (hacc : Accounts board pc readers writers owner) {current : FutexAtom τ ℕ}
    (hpc : pc task = .readUnlock (.loop current)) :
    Accounts (flipped board { word board with readers := 0 })
      (Function.update pc task (.readUnlock (.pop (word board).writers))) ∅ writers
      (some task) := by
  have hleads : (pc task).Leads := by
    rw [hpc]
    trivial
  have hreaders := hacc.readers_of_leads hleads
  have hpos := ((hacc.points task).leads hleads).2
  have hreader : task ∈ readers := by simp [hreaders]
  have hnone := hacc.owner_eq_none hreader
  have hword : word (flipped board { word board with readers := 0 }) =
      { word board with readers := 0 } :=
    word_setAtom (board.flip ()) (by simp) (Atom.writers_decode_lt _)
  have hqueued : writeQueue (flipped board { word board with readers := 0 }) ≠ [] := by
    rw [hacc.books.writerCount] at hpos
    obtain ⟨writer, hwriter⟩ := Finset.card_pos.mp hpos
    exact writeQueue_ne_nil hco hacc hwriter (by simp [hnone]) _
  have hborrow : (holds (pc task)).borrow = some () := by
    rw [hpc]
    rfl
  refine hacc.of_word rfl rfl rfl rfl (by rw [hpc]; rfl) (by rw [hpc]; rfl) rfl ?_ ?_ ?_
    (fun other hother => ?_) (fun _ _ => Iff.rfl) (fun other hother => ?_) ?_
    ⟨fun h => h.elim, hpos, hqueued, trivial⟩ (fun other hother hother' => ?_)
    (fun other hother => stocked_other hco hacc hborrow hother (Or.inl hnone))
    (fun _ => inbox_flipped _ _) (fun hempty => ?_)
  · simp [Point.reads, ReadUnlock.reads]
  · have hwriter : task ∉ writers := hacc.notMem_writers (by rw [hpc]; rfl)
    simp [Point.writes, hwriter]
  · simp [Point.owns]
  · simp [hreaders, hother]
  · simp [hnone, Ne.symm hother]
  · rw [hword]
    constructor
    · rfl
    · exact hacc.books.writerCount
    · simp
    · simp
  · exact absurd hother' (hacc.not_leads hother (Or.inl hreader))
  · rw [hacc.books.writerCount, hempty] at hpos
    simp at hpos

/-- A writer is about to pop the next one. -/
theorem handOff (hacc : Accounts board pc readers writers owner) {hasReaders : Bool}
    {current : FutexAtom τ ℕ} (hpc : pc task = .writeUnlock (.loop hasReaders current))
    (hmany : 1 < (word board).writers) :
    Accounts (flipped board { word board with writers := (word board).writers - 1 })
      (Function.update pc task (.writeUnlock .pop)) readers (writers.erase task) owner := by
  have howner : owner = some task := hacc.owner_eq (by rw [hpc]; rfl)
  have hwriter : task ∈ writers := hacc.mem_writers (by rw [hpc]; rfl)
  have hcard := hacc.books.writerCount
  have hcard' := Finset.card_erase_of_mem hwriter
  have hword : word (flipped board { word board with writers := (word board).writers - 1 }) =
      { word board with writers := (word board).writers - 1 } :=
    word_setAtom (board.flip ()) (Atom.readers_decode_lt _)
      (Nat.lt_of_le_of_lt (Nat.sub_le _ _) (Atom.writers_decode_lt _))
  obtain ⟨next, hnext⟩ : (writers.erase task).Nonempty := Finset.card_pos.mp (by omega)
  have hqueued := writeQueue_ne_nil hco hacc (Finset.mem_of_mem_erase hnext)
    (by simpa [howner] using (Finset.ne_of_mem_erase hnext).symm)
    { word board with writers := (word board).writers - 1 }
  have hborrow : (holds (pc task)).borrow = some () := by
    rw [hpc]
    rfl
  refine hacc.of_word rfl rfl rfl rfl (by rw [hpc]; rfl) (by rw [hpc]; rfl) rfl ?_ ?_ ?_
    (fun _ _ => Iff.rfl) (fun other hother => ?_) (fun _ _ => Iff.rfl) ?_
    ⟨fun h => h.elim, trivial, hqueued, trivial⟩ (fun other hother hleads => ?_)
    (fun other hother => stocked_other hco hacc hborrow hother (Or.inr howner))
    (fun _ => inbox_flipped _ _) (fun hempty => ?_)
  · have hreaders := hacc.readers_eq_empty howner
    simp [Point.reads, WriteUnlock.reads, hreaders]
  · simp [Point.writes, WriteUnlock.writes]
  · simp [Point.owns, howner]
  · simp [hother]
  · rw [hword]
    constructor
    · exact hacc.books.readerCount
    · rw [hcard', hcard]
    · exact hacc.books.exclusive
    · simp [howner]
  · exact absurd hleads (hacc.not_leads hother (Or.inr howner))
  · rw [hempty] at hnext
    simp at hnext

/-- The last writer becomes a reader, for the readers that wait. -/
theorem downgrade (hacc : Accounts board pc readers writers owner) {hasReaders : Bool}
    {current : FutexAtom τ ℕ} (hpc : pc task = .writeUnlock (.loop hasReaders current))
    (hone : (word board).writers = 1)
    (hwaiters : readQueue board ≠ [] ∨ RwLock.inbox board ≠ []) {current' : FutexAtom τ ℕ} :
    Accounts (flipped board ⟨1, 0⟩)
      (Function.update pc task (.writeUnlock (.popWriter current'))) {task} ∅ none := by
  have howner : owner = some task := hacc.owner_eq (by rw [hpc]; rfl)
  have hreaders := hacc.readers_eq_empty howner
  have hwriter : task ∈ writers := hacc.mem_writers (by rw [hpc]; rfl)
  have hsingle : writers = {task} := by
    obtain ⟨other, hother⟩ := Finset.card_eq_one.mp (hacc.books.writerCount.symm.trans hone)
    rw [hother, Finset.mem_singleton] at hwriter
    rw [hother, hwriter]
  have hword : word (flipped board ⟨1, 0⟩) = ⟨1, 0⟩ :=
    word_setAtom (board.flip ()) (by simp) (by simp)
  -- the task is the only writer, so whoever waits is a reader
  have hread (waiter : τ) (hlisted : board.Listed waiter) : board.store.queue waiter = .read := by
    cases hqueue : board.store.queue waiter with
    | read => rfl
    | write =>
        have hwaits := waits_of_listed hco (Or.inl hlisted)
        rw [hqueue] at hwaits
        have hmem : waiter ∈ writers := by
          apply hacc.mem_writers
          cases hwaiter : pc waiter <;> simp_all [Point.waits, Point.writes]
        rw [hsingle, Finset.mem_singleton] at hmem
        rw [hmem, hpc] at hwaits
        cases hwaits
  have hnone : writeQueue (flipped board ⟨1, 0⟩) = [] := by
    rw [List.eq_nil_iff_forall_not_mem, writeQueue_flipped]
    intro waiter hmem
    have hqueue : board.store.queue waiter = .write := by
      rcases List.mem_append.mp hmem with hmem | hmem
      · exact queue_eq hco hmem
      · exact (mem_arrivals.mp hmem).2
    have hlisted : board.Listed waiter := by
      rcases List.mem_append.mp hmem with hmem | hmem
      · exact Or.inr ⟨(), .write, hmem⟩
      · exact Or.inl ⟨(), (mem_arrivals.mp hmem).1⟩
    rw [hread waiter hlisted] at hqueue
    cases hqueue
  have hsome : readQueue (flipped board ⟨1, 0⟩) ≠ [] := by
    rw [readQueue_flipped]
    rcases hwaiters with hqueued | hinbox
    · simp [hqueued]
    · obtain ⟨waiter, hmem⟩ := List.exists_mem_of_ne_nil _ hinbox
      apply List.ne_nil_of_mem (a := waiter)
      rw [List.mem_append, mem_arrivals]
      exact Or.inr ⟨hmem, hread waiter (Or.inl ⟨(), hmem⟩)⟩
  have hborrow : (holds (pc task)).borrow = some () := by
    rw [hpc]
    rfl
  refine hacc.of_word rfl rfl rfl rfl (by rw [hpc]; rfl) (by rw [hpc]; rfl) rfl ?_ ?_ ?_
    (fun other hother => ?_) (fun other hother => ?_) (fun other hother => ?_) ?_
    ⟨fun h => h.elim, trivial, ⟨hnone, hsome⟩, trivial⟩ (fun other hother hleads => ?_)
    (fun other hother => stocked_other hco hacc hborrow hother (Or.inr howner))
    (fun _ => inbox_flipped _ _) (fun _ => Or.inr (Or.inl rfl))
  · simp [Point.reads, WriteUnlock.reads]
  · simp [Point.writes, WriteUnlock.writes]
  · simp [Point.owns, WriteUnlock.writes]
  · simp [hreaders, hother]
  · simp [hsingle, hother]
  · simp [howner, Ne.symm hother]
  · rw [hword]
    constructor <;> simp
  · exact absurd hleads (hacc.not_leads hother (Or.inr howner))

end Coherent

end Accounts

end RwLock

end AsyncMutex

import AsyncMutex.RwLockLocking

/-!
# Popping the waiters of the reader-writer lock

Whoever leaves the lock to its waiters pops a writer, or all readers: a popped
waiter has the lock, and its future returns after it was woken.
-/

namespace AsyncMutex

namespace RwLock

namespace Accounts

variable {τ : Type} [DecidableEq τ] {board board' : LockBoard τ} {pc : τ → Point τ}
  {readers writers : Finset τ} {owner : Option τ} {task : τ}

/-! ## Popping and waking -/

section Coherent

variable (hco : (client : Client τ Unit _ _ Unit _ _).Coherent holds board pc)
include hco

/-- A downgrade finds no writer. -/
theorem popNoWriter (hacc : Accounts board pc readers writers owner) {current : FutexAtom τ ℕ}
    (hpc : pc task = .writeUnlock (.popWriter current)) :
    Accounts ((board.setStore (board.store.setQueue () .write [])).setHandle task none)
      (Function.update pc task (.writeUnlock (.popMany current))) readers writers owner := by
  have hpoint := hacc.points task
  rw [hpc] at hpoint
  obtain ⟨hnone, hsome⟩ := hpoint.stocked
  have hhandle : Function.update board.handle task none = board.handle := by
    rw [Function.update_eq_self_iff]
    exact ((hco.fits task).handle_eq_none (by rw [hpc]; rfl)).symm
  refine hacc.keep rfl rfl ?_ ?_ (fun _ _ => rfl) (fun _ h => h) (fun other _ => ?_) ?_
    ⟨fun h => h.elim, trivial, ?_, trivial⟩ ?_ (Or.inl ?_) (fun other hstage hwaiting => ?_)
  · simp [readQueue, Board.setHandle, Board.setStore, ListStore.setQueue]
  · rw [hnone]
    simp [writeQueue, Board.setHandle, Board.setStore, ListStore.setQueue]
  · apply granted_iff
    · exact hhandle
    · exact fun _ _ => rfl
    · rw [hpc]
      rfl
    · rfl
  · apply (hacc.roles task).move <;>
      simp [hpc, Point.reads, WriteUnlock.reads, Point.writes, WriteUnlock.writes, Point.owns,
        Point.waits]
  · simpa [Stocked, readQueue, Board.setHandle, Board.setStore, ListStore.setQueue] using hsome
  · rw [hpc]
    rfl
  · rw [hpc]
    rfl
  · by_cases hother : other = task
    · subst hother
      simp at hwaiting
    · rw [Function.update_of_ne hother] at hwaiting
      exact hacc.dropping other hstage hwaiting

/-- A downgrade takes all readers. -/
theorem popReaders (hacc : Accounts board pc readers writers owner) {current : FutexAtom τ ℕ}
    (hpc : pc task = .writeUnlock (.popMany current)) :
    Accounts (board.setStore
        (FutexStore.popMany board.store task () WaiterList.usizeMax Queue.read))
      (Function.update pc task (.writeUnlock (.releaseReaders current))) readers writers
      owner := by
  have hpoint := hacc.points task
  rw [hpc] at hpoint
  have hsome : readQueue board ≠ [] := hpoint.stocked
  have hreader : task ∈ readers := hacc.mem_readers (by rw [hpc]; rfl)
  have hborrow : (holds (pc task)).borrow = some () := by
    rw [hpc]
    rfl
  have hgranted (other : τ) : Granted (board.setStore
      (FutexStore.popMany board.store task () WaiterList.usizeMax Queue.read))
        (Function.update pc task (.writeUnlock (.releaseReaders current))) other ↔
          Granted board pc other := by
    apply granted_iff
    · rfl
    · intro third hthird
      have hne : third ≠ task := by
        rintro rfl
        rw [hpc] at hthird
        cases hthird
      simp [Board.setStore, FutexStore.popMany, hne]
    · rw [hpc]
      rfl
    · rfl
  refine of_update ?_ (fun other _ => ?_) hacc.books ⟨fun h => h.elim, trivial, trivial, ?_⟩
    (fun other hother => ?_) hacc.inbox (fun _ => Or.inl ?_) (fun other waiter hmem => ?_)
    (fun other hstage hwaiting => ?_)
  · apply (hacc.roles task).move <;>
      simp [hpc, Point.reads, WriteUnlock.reads, Point.writes, WriteUnlock.writes, Point.owns,
        Point.waits]
  · obtain ⟨hreads', hwrites', howns'⟩ := hacc.roles other
    rw [← hgranted other] at hreads' howns'
    exact ⟨hreads', hwrites', howns'⟩
  · simpa [Batched, Board.setStore, FutexStore.popMany, WaiterList.front, readQueue] using hsome
  · obtain ⟨hleads, hsnapshot, -, hbatched⟩ := hacc.points other
    refine ⟨hleads, hsnapshot, stocked_other hco hacc hborrow hother
      (Or.inl (hacc.owner_eq_none hreader)), ?_⟩
    simpa [Board.setStore, FutexStore.popMany, Function.update_of_ne hother] using hbatched
  · simp [readQueue, Board.setStore, FutexStore.popMany, ListStore.setQueue, WaiterList.back]
  · have hwaits : (pc waiter).waits = some .read := by
      simp only [Board.setStore, FutexStore.popMany, WaiterList.front, if_true] at hmem
      rw [Function.update_apply] at hmem
      split at hmem
      case isTrue => exact waits_of_queued hco hmem
      case isFalse => exact hacc.batches other waiter hmem
    rw [Function.update_apply]
    split
    case isTrue heq =>
      rw [heq, hpc] at hwaits
      cases hwaits
    case isFalse => exact hwaits
  · by_cases hother : other = task
    · subst hother
      simp at hwaiting
    · rw [Function.update_of_ne hother] at hwaiting
      exact hacc.dropping other hstage hwaiting

/-- The popped readers are counted, and have the lock from now on. -/
theorem countReaders (hacc : Accounts board pc readers writers owner) {count : ℕ}
    {current : FutexAtom τ ℕ} (hpc : pc task = .writeUnlock (.countLoop count current))
    (hfew : Few (board.setAtom ()
        { word board with readers := (word board).readers + count - 1 : Atom }.encode)
      (Function.update pc task (.writeUnlock .next))) :
    Accounts (board.setAtom ()
        { word board with readers := (word board).readers + count - 1 : Atom }.encode)
      (Function.update pc task (.writeUnlock .next))
      (readers.erase task ∪ (board.store.list task).toFinset) writers owner := by
  have hpoint := hacc.points task
  rw [hpc] at hpoint
  have hcount : count ≠ 0 := hpoint.snapshot
  have hlength : (board.store.list task).length = count := hpoint.batched
  have hreader : task ∈ readers := hacc.mem_readers (by rw [hpc]; rfl)
  have hnone := hacc.owner_eq_none hreader
  have hbatch (waiter : τ) (hmem : waiter ∈ board.store.list task) :
      waiter ≠ task ∧ waiter ∉ readers := by
    have hwaits := hacc.batches task waiter hmem
    constructor
    · rintro rfl
      rw [hpc] at hwaits
      cases hwaits
    · rw [← (hacc.roles waiter).reads]
      rintro (hreads | ⟨-, hgranted⟩)
      · cases hwaiter : pc waiter <;> simp_all [Point.waits, Point.reads]
      · exact not_granted_of_uncounted hco hmem (by rw [hpc]; rfl) hgranted
  have hgranted (other : τ) : Granted (board.setAtom ()
      { word board with readers := (word board).readers + count - 1 : Atom }.encode)
        (Function.update pc task (.writeUnlock .next)) other ↔
          Granted board pc other ∨ other ∈ board.store.list task := by
    have hlists : (∃ third, (Function.update pc task (.writeUnlock .next) third).counted = true ∧
        other ∈ board.store.list third) ↔
          (∃ third, (pc third).counted = true ∧ other ∈ board.store.list third) ∨
            other ∈ board.store.list task := by
      constructor
      · rintro ⟨third, hthird, hmem⟩
        by_cases heq : third = task
        · rw [heq] at hmem
          exact Or.inr hmem
        · rw [Function.update_of_ne heq] at hthird
          exact Or.inl ⟨third, hthird, hmem⟩
      · rintro (⟨third, hthird, hmem⟩ | hmem)
        · refine ⟨third, ?_, hmem⟩
          rw [Function.update_apply]
          split
          · rfl
          · exact hthird
        · exact ⟨task, by simp [Point.counted], hmem⟩
    simp only [Granted, Board.setAtom, hlists, or_comm, or_left_comm]
  have hcard : (readers.erase task ∪ (board.store.list task).toFinset).card =
      readers.card + count - 1 := by
    obtain ⟨place, hplaced⟩ := hco.placed
    have hdisjoint : Disjoint (readers.erase task) (board.store.list task).toFinset := by
      rw [Finset.disjoint_right]
      intro waiter hmem hreader'
      exact (hbatch waiter (List.mem_toFinset.mp hmem)).2 (Finset.mem_of_mem_erase hreader')
    have hpos := Finset.card_pos.mpr ⟨task, hreader⟩
    rw [Finset.card_union_of_disjoint hdisjoint, Finset.card_erase_of_mem hreader,
      List.toFinset_card_of_nodup (hplaced.places.listNodup task), hlength]
    omega
  have hword : word (board.setAtom ()
      { word board with readers := (word board).readers + count - 1 : Atom }.encode) =
        { word board with readers := (word board).readers + count - 1 : Atom } := by
    apply word_setAtom
    · rw [hacc.books.readerCount, ← hcard]
      refine hfew.readers _ fun other hmem => ?_
      rcases Finset.mem_union.mp hmem with hreader' | hlist
      · obtain ⟨hother, hreader'⟩ := Finset.mem_erase.mp hreader'
        rw [Function.update_of_ne hother]
        exact ((hacc.roles other).reads.mpr hreader').imp_right fun h =>
          ⟨h.1, (hgranted other).mpr (Or.inl h.2)⟩
      · have hwaiter := List.mem_toFinset.mp hlist
        rw [Function.update_of_ne (hbatch other hwaiter).1]
        exact Or.inr ⟨hacc.batches task other hwaiter, (hgranted other).mpr (Or.inr hwaiter)⟩
    · exact Atom.writers_decode_lt _
  refine of_update ?_ (fun other hother => ?_) ?_ ⟨fun h => h.elim, trivial, trivial, trivial⟩
    (fun other hother => ?_) hacc.inbox (fun hempty => ?_) (fun other waiter hmem => ?_)
    (fun other hstage hwaiting => ?_)
  · constructor
    · have hnot : task ∉ board.store.list task := fun hmem => (hbatch task hmem).1 rfl
      simp [Reads, Point.reads, WriteUnlock.reads, Point.waits, hnot]
    · have hwriter : task ∉ writers := hacc.notMem_writers (by rw [hpc]; rfl)
      simp [Point.writes, WriteUnlock.writes, hwriter]
    · simp [Owns, Point.owns, WriteUnlock.writes, Point.waits, hnone]
  · obtain ⟨hreads', hwrites', howns'⟩ := hacc.roles other
    by_cases hmem : other ∈ board.store.list task
    · have hwaits := hacc.batches task other hmem
      refine ⟨?_, hwrites', ?_⟩
      · apply iff_of_true
        · exact Or.inr ⟨hwaits, (hgranted other).mpr (Or.inr hmem)⟩
        · simp [hmem]
      · rw [← howns', Owns, Owns, hwaits]
        simp
    · have hsame := hgranted other
      rw [or_iff_left hmem] at hsame
      rw [← hsame] at hreads' howns'
      refine ⟨hreads'.trans ?_, hwrites', howns'⟩
      simp [hother, hmem]
  · rw [hword]
    constructor
    · rw [hcard, hacc.books.readerCount]
    · exact hacc.books.writerCount
    · simp [hnone]
    · intro _ hempty
      have hlist : (board.store.list task).length = 0 := by
        have hunion := (Finset.union_eq_empty.mp hempty).2
        rw [List.toFinset_eq_empty_iff] at hunion
        rw [hunion]
        rfl
      omega
  · obtain ⟨-, hsnapshot, hstocked, hbatched⟩ := hacc.points other
    exact ⟨fun hleads => absurd hleads (hacc.not_leads hother (Or.inl hreader)), hsnapshot,
      hstocked, hbatched⟩
  · rcases hacc.queue hempty with hqueue | ⟨other, hpops⟩
    · exact Or.inl hqueue
    · refine Or.inr (Or.inr ⟨other, ?_, hpops⟩)
      rintro rfl
      rw [hpc] at hpops
      cases hpops
  · have hwaits := hacc.batches other waiter hmem
    rw [Function.update_apply]
    split
    case isTrue heq =>
      rw [heq, hpc] at hwaits
      cases hwaits
    case isFalse => exact hwaits
  · by_cases hother : other = task
    · subst hother
      simp at hwaiting
    · rw [Function.update_of_ne hother] at hwaiting
      exact hacc.dropping other hstage hwaiting

/-- Waking the readers one by one. -/
theorem nextReader (hacc : Accounts board pc readers writers owner)
    (hpc : pc task = .writeUnlock .next) {pc' : Point τ}
    (hnext : pc' = .writeUnlock .wakeReader ∨
      pc' = .writeUnlock .done ∧ board.store.list task = []) :
    Accounts ((board.setStore (FutexStore.listPop board.store task).2).setHandle task
        (board.store.list task).head?)
      (Function.update pc task pc') readers writers owner := by
  have hhandle : board.handle task = none :=
    (hco.fits task).handle_eq_none (by rw [hpc]; rfl)
  have hidle : pc'.reads = false ∧ pc'.writes = false ∧ pc'.owns = false ∧ pc'.waits = none ∧
      pc'.pops = false ∧ ¬ pc'.Leads ∧ pc' ≠ .waiting .write := by
    rcases hnext with rfl | ⟨rfl, -⟩ <;> exact ⟨rfl, rfl, rfl, rfl, rfl, id, by simp⟩
  have hcounted (other third : τ) :
      (Function.update pc task pc' third).counted = true ∧ other ∈ board.store.list third ↔
        (pc third).counted = true ∧ other ∈ board.store.list third := by
    rw [Function.update_apply]
    split
    case isFalse => rfl
    case isTrue heq =>
      subst heq
      rcases hnext with rfl | ⟨rfl, hnone⟩
      · simp [hpc, Point.counted]
      · simp [hnone]
  -- the first reader goes from the list to the hand
  have hsplit (other : τ) : other ∈ board.store.list task ↔
      (board.store.list task).head? = some other ∨ other ∈ (board.store.list task).tail := by
    cases board.store.list task with
    | nil => simp
    | cons waiter rest => simp [eq_comm]
  have htask (other : τ) (hmem : other ∈ board.store.list task) :
      (pc task).counted = true ∧ other ∈ board.store.list task :=
    ⟨by rw [hpc]; rfl, hmem⟩
  have hgranted (other : τ) : Granted
      ((board.setStore (FutexStore.listPop board.store task).2).setHandle task
        (board.store.list task).head?) (Function.update pc task pc') other ↔
          Granted board pc other := by
    simp only [Granted, Board.setHandle, Board.setStore, FutexStore.listPop]
    constructor
    · rintro (⟨third, hthird⟩ | ⟨third, hthird, hmem⟩ | hawake)
      · rw [Function.update_apply] at hthird
        split at hthird
        · exact Or.inr (Or.inl ⟨task, htask other ((hsplit other).mpr (Or.inl hthird))⟩)
        · exact Or.inl ⟨third, hthird⟩
      · have hmem' : other ∈ board.store.list third := by
          rw [Function.update_apply] at hmem
          split at hmem
          case isTrue heq =>
            rw [heq]
            exact (hsplit other).mpr (Or.inr hmem)
          case isFalse => exact hmem
        exact Or.inr (Or.inl ⟨third, (hcounted other third).mp ⟨hthird, hmem'⟩⟩)
      · exact Or.inr (Or.inr hawake)
    · rintro (⟨third, hthird⟩ | ⟨third, hthird⟩ | hawake)
      · refine Or.inl ⟨third, ?_⟩
        rw [Function.update_of_ne]
        · exact hthird
        · rintro rfl
          rw [hhandle] at hthird
          cases hthird
      · obtain ⟨hthird, hmem⟩ := (hcounted other third).mpr hthird
        by_cases heq : third = task
        · rw [heq] at hmem hthird
          rcases (hsplit other).mp hmem with hhead | htail
          · exact Or.inl ⟨task, by rw [Function.update_self]; exact hhead⟩
          · exact Or.inr (Or.inl ⟨task, hthird, by rw [Function.update_self]; exact htail⟩)
        · exact Or.inr (Or.inl ⟨third, hthird, by rw [Function.update_of_ne heq]; exact hmem⟩)
      · exact Or.inr (Or.inr hawake)
  obtain ⟨hreads, hwrites, howns, hwaits, hpops, hleads, hwaiting⟩ := hidle
  refine hacc.keep rfl rfl rfl rfl (fun other hother => ?_) (fun waiter hmem => ?_)
    (fun other _ => hgranted other) ?_ ⟨fun h => absurd h hleads, ?_, ?_, ?_⟩ ?_ (Or.inl ?_)
    (fun other hstage hdropped => ?_)
  · exact Function.update_of_ne hother _ _
  · simp only [Board.setHandle, Board.setStore, FutexStore.listPop, Function.update_self] at hmem
    exact List.mem_of_mem_tail hmem
  · refine (hacc.roles task).move ?_ ?_ ?_ (by rw [hpc]; rfl) hwaits
    · rw [hreads, hpc]
      rfl
    · rw [hwrites, hpc]
      rfl
    · rw [howns, hpc]
      rfl
  · rcases hnext with rfl | ⟨rfl, -⟩ <;> trivial
  · rcases hnext with rfl | ⟨rfl, -⟩ <;> trivial
  · rcases hnext with rfl | ⟨rfl, -⟩ <;> trivial
  · rw [hpc, hpops]
    rfl
  · rw [hpc, hwaits]
    rfl
  · by_cases hother : other = task
    · subst hother
      rw [Function.update_self] at hdropped
      exact absurd hdropped hwaiting
    · rw [Function.update_of_ne hother] at hdropped
      exact hacc.dropping other hstage hdropped

/-- The writer that is popped owns the lock from now on. -/
theorem popWriter (hacc : Accounts board pc readers writers owner) {pc' : Point τ}
    (hpc : (∃ count, pc task = .readUnlock (.pop count)) ∨ pc task = .writeUnlock .pop)
    (hrelease : pc' = .readUnlock .release ∨ pc' = .writeUnlock .release)
    {writer : τ} {rest : List τ} (hqueue : writeQueue board = writer :: rest) :
    Accounts ((board.setStore (board.store.setQueue () .write rest)).setHandle task (some writer))
      (Function.update pc task pc') readers writers (some writer) := by
  have howns : (pc task).owns = true := by
    rcases hpc with ⟨count, hpc⟩ | hpc <;> rw [hpc] <;> rfl
  have hborrow : (holds (pc task)).borrow = some () := by
    rcases hpc with ⟨count, hpc⟩ | hpc <;> rw [hpc] <;> rfl
  have hhand : (holds (pc task)).hand = false := by
    rcases hpc with ⟨count, hpc⟩ | hpc <;> rw [hpc] <;> rfl
  have hwrites : (pc task).writes = false := by
    rcases hpc with ⟨count, hpc⟩ | hpc <;> rw [hpc] <;> rfl
  have hcounted : (pc task).counted = false := by
    rcases hpc with ⟨count, hpc⟩ | hpc <;> rw [hpc] <;> rfl
  have hidle : pc'.reads = false ∧ pc'.writes = false ∧ pc'.owns = false ∧ pc'.waits = none ∧
      pc'.counted = false := by
    rcases hrelease with rfl | rfl <;> exact ⟨rfl, rfl, rfl, rfl, rfl⟩
  have howner := hacc.owner_eq howns
  have hreaders := hacc.readers_eq_empty howner
  have hhandle : board.handle task = none := (hco.fits task).handle_eq_none hhand
  have hmem : writer ∈ board.store.queues () .write := by
    have hmem' : writer ∈ writeQueue board := by simp [hqueue]
    exact hmem'
  have hwaits : (pc writer).waits = some .write := waits_of_queued hco hmem
  have hwriter : writer ∈ writers := by
    apply hacc.mem_writers
    cases hpc : pc writer <;> simp_all [Point.waits, Point.writes]
  have hne : writer ≠ task := by
    rintro rfl
    rw [(hacc.roles writer).writes.mpr hwriter] at hwrites
    cases hwrites
  have hgranted (other : τ) : Granted
      ((board.setStore (board.store.setQueue () .write rest)).setHandle task (some writer))
        (Function.update pc task pc') other ↔ writer = other ∨ Granted board pc other := by
    have hsame (third : τ) :
        (Function.update pc task pc' third).counted = (pc third).counted := by
      rw [Function.update_apply]
      split
      case isTrue heq => rw [heq, hidle.2.2.2.2, hcounted]
      case isFalse => rfl
    have hhands : (∃ third, Function.update board.handle task (some writer) third = some other) ↔
        writer = other ∨ ∃ third, board.handle third = some other := by
      constructor
      · rintro ⟨third, hthird⟩
        rw [Function.update_apply] at hthird
        split at hthird
        · exact Or.inl (Option.some.inj hthird)
        · exact Or.inr ⟨third, hthird⟩
      · rintro (rfl | ⟨third, hthird⟩)
        · exact ⟨task, Function.update_self _ _ _⟩
        · refine ⟨third, ?_⟩
          rw [Function.update_of_ne]
          · exact hthird
          · rintro rfl
            rw [hhandle] at hthird
            cases hthird
    simp only [Granted, Board.setHandle, Board.setStore, ListStore.setQueue, hhands, hsame,
      or_assoc]
  obtain ⟨hreads', hwrites', howns', hwaits', -⟩ := hidle
  refine of_update ?_ (fun other hother => ?_) ?_ ?_ (fun other hother => ?_) hacc.inbox
    (fun hempty => ?_) (fun other waiter hlist => ?_) (fun other hstage hdropped => ?_)
  · constructor
    · simp [Reads, hreads', hwaits', hreaders]
    · rw [hwrites', ← (hacc.roles task).writes, hwrites]
    · simp [Owns, howns', hwaits', hne]
  · obtain ⟨hreadsOther, hwritesOther, hownsOther⟩ := hacc.roles other
    by_cases heq : writer = other
    · subst heq
      refine ⟨?_, hwritesOther, ?_⟩
      · rw [← hreadsOther, Reads, Reads, hwaits]
        simp
      · apply iff_of_true
        · exact Or.inr ⟨hwaits, (hgranted writer).mpr (Or.inl rfl)⟩
        · rfl
    · have hsame := hgranted other
      rw [or_iff_right heq] at hsame
      rw [← hsame] at hreadsOther hownsOther
      refine ⟨hreadsOther, hwritesOther, hownsOther.trans ?_⟩
      simp [howner, heq, Ne.symm hother]
  · obtain ⟨hreaderCount, hwriterCount, -, -⟩ := hacc.books
    exact ⟨hreaderCount, hwriterCount, fun _ => hreaders, by simp⟩
  · rcases hrelease with rfl | rfl <;> exact ⟨fun h => h.elim, trivial, trivial, trivial⟩
  · obtain ⟨hleads, hsnapshot, -, hbatched⟩ := hacc.points other
    exact ⟨hleads, hsnapshot, stocked_other hco hacc hborrow hother (Or.inr howner), hbatched⟩
  · rw [hempty] at hwriter
    simp at hwriter
  · have hreader := hacc.batches other waiter hlist
    rw [Function.update_apply]
    split
    case isTrue heq =>
      subst heq
      cases hpc : pc waiter <;> simp_all [Point.waits, Point.owns]
    case isFalse => exact hreader
  · by_cases hother : other = task
    · subst hother
      rw [Function.update_self] at hdropped
      rw [hdropped] at hwaits'
      cases hwaits'
    · rw [Function.update_of_ne hother] at hdropped
      exact hacc.dropping other hstage hdropped

omit hco in
/-- The swap of `Waiter::wake`. -/
theorem wake (hacc : Accounts board pc readers writers owner) {waiter : τ}
    (hhandle : board.handle task = some waiter) :
    Accounts (((board.setAwake waiter true).setHandle task none).setActivity task .waking) pc
      readers writers owner := by
  have hgranted (other : τ) : Granted
      (((board.setAwake waiter true).setHandle task none).setActivity task .waking) pc other ↔
        Granted board pc other := by
    simp only [Granted, Board.setActivity, Board.setHandle, Board.setAwake]
    constructor
    · rintro (⟨third, hthird⟩ | hlist | hawake)
      · rw [Function.update_apply] at hthird
        split at hthird
        · cases hthird
        · exact Or.inl ⟨third, hthird⟩
      · exact Or.inr (Or.inl hlist)
      · rw [Function.update_apply] at hawake
        split at hawake
        case isTrue heq =>
          rw [heq]
          exact Or.inl ⟨task, hhandle⟩
        case isFalse => exact Or.inr (Or.inr hawake)
    · rintro (⟨third, hthird⟩ | hlist | hawake)
      · by_cases heq : third = task
        · rw [heq, hhandle] at hthird
          obtain rfl := Option.some.inj hthird
          exact Or.inr (Or.inr (Function.update_self _ _ _))
        · exact Or.inl ⟨third, by rw [Function.update_of_ne heq]; exact hthird⟩
      · exact Or.inr (Or.inl hlist)
      · refine Or.inr (Or.inr ?_)
        rw [Function.update_apply]
        split
        · rfl
        · exact hawake
  refine ⟨fun other => ?_, hacc.books, fun other => ?_, hacc.inbox, hacc.queue, hacc.batches,
    fun other hstage hwaiting => ?_⟩
  · obtain ⟨hreads, hwrites, howns⟩ := hacc.roles other
    rw [← hgranted other] at hreads howns
    exact ⟨hreads, hwrites, howns⟩
  · obtain ⟨hleads, hsnapshot, hstocked, hbatched⟩ := hacc.points other
    exact ⟨hleads, hsnapshot, hstocked, hbatched⟩
  · simp only [Board.setActivity, Board.setHandle, Board.setAwake]
    rw [Function.update_apply]
    split
    · rfl
    · exact hacc.dropping other hstage hwaiting

/-! ## The end of a future -/

/-- The future of a woken task returns, or its drop calls the unlock. -/
theorem awakeReturns (hacc : Accounts board pc readers writers owner) {queue : Queue}
    (hpc : pc task = .waiting queue) (hawake : board.awake task = true) {awake : Bool}
    {pc' : Point τ} (hnext : pc' = .guard queue ∨ pc' = unlockOf queue) :
    Accounts ((board.setStage task .free).setAwake task awake) (Function.update pc task pc')
      readers writers owner := by
  have hunlisted (other : τ) : task ∉ board.store.list other := by
    intro hmem
    rw [hco.awake_of_popped (Or.inr ⟨other, hmem⟩)] at hawake
    cases hawake
  have hrole := hacc.roles task
  have hgranted : Granted board pc task := Or.inr (Or.inr hawake)
  rw [hpc] at hrole
  refine hacc.keep rfl rfl rfl rfl (fun _ _ => rfl) (fun _ h => h) (fun other hother => ?_) ?_
    ?_ ?_ (Or.inr hunlisted) (fun other hstage hwaiting => ?_)
  · apply granted_iff
    · rfl
    · exact fun _ _ => rfl
    · rw [hpc]
      rcases hnext with rfl | rfl <;> cases queue <;> rfl
    · simp [Board.setAwake, Board.setStage, hother]
  · obtain ⟨hreads, hwrites, howns⟩ := hrole
    simp only [Reads, Point.reads, Point.waits, hgranted, and_true] at hreads
    simp only [Owns, Point.owns, Point.waits, hgranted, and_true] at howns
    rcases hnext with rfl | rfl <;> cases queue <;> constructor <;>
      simp_all [Reads, Owns, unlockOf, Point.reads, ReadUnlock.reads, WriteUnlock.reads,
        Point.writes, WriteUnlock.writes, Point.owns, Point.waits]
  · rcases hnext with rfl | rfl <;> cases queue <;>
      exact ⟨fun h => h.elim, trivial, trivial, trivial⟩
  · rw [hpc]
    rcases hnext with rfl | rfl <;> cases queue <;> rfl
  · by_cases hother : other = task
    · subst hother
      rw [Function.update_self] at hwaiting
      rcases hnext with rfl | rfl <;> cases queue <;> cases hwaiting
    · rw [Function.update_of_ne hother] at hwaiting
      simp only [Board.setAwake, Board.setStage, Function.update_of_ne hother] at hstage ⊢
      exact hacc.dropping other hstage hwaiting

omit hco in
/-- A reader that sleeps is dropped. -/
theorem abort (hacc : Accounts board pc readers writers owner)
    (hpc : pc task = .waiting .read) (hawake : board.awake task = false)
    (hlist : ∀ other, task ∉ board.store.list other)
    (hhandle : ∀ other, board.handle other ≠ some task) :
    Accounts (board.setStage task .free) (Function.update pc task .idle) readers writers
      owner := by
  have hgranted : ¬ Granted board pc task := by
    rintro (⟨other, hother⟩ | ⟨other, -, hmem⟩ | h)
    · exact hhandle other hother
    · exact hlist other hmem
    · rw [hawake] at h
      cases h
  have hrole := hacc.roles task
  rw [hpc] at hrole
  refine hacc.keep rfl rfl rfl rfl (fun _ _ => rfl) (fun _ h => h) (fun other _ => ?_) ?_
    ⟨fun h => h.elim, trivial, trivial, trivial⟩ (by rw [hpc]; rfl) (Or.inr hlist)
    (fun other hstage hwaiting => ?_)
  · apply granted_iff
    · rfl
    · exact fun _ _ => rfl
    · rw [hpc]
      rfl
    · rfl
  · obtain ⟨hreads, hwrites, howns⟩ := hrole
    constructor
    · simpa [Reads, Point.reads, Point.waits, hgranted] using hreads
    · exact hwrites
    · simpa [Owns, Point.owns, Point.waits] using howns
  · by_cases hother : other = task
    · subst hother
      simp at hwaiting
    · rw [Function.update_of_ne hother] at hwaiting
      simp only [Board.setStage, Function.update_of_ne hother] at hstage
      exact hacc.dropping other hstage hwaiting

omit hco in
/-- The drop of a future begins. -/
theorem drop (hacc : Accounts board pc readers writers owner)
    (hwoken : pc task = .waiting .write → board.awake task = true) :
    Accounts (board.setStage task .dropping) pc readers writers owner := by
  refine ⟨hacc.roles, hacc.books, fun other => ?_, hacc.inbox, hacc.queue, hacc.batches,
    fun other hstage hwaiting => ?_⟩
  · exact point_congr (hacc.points other) rfl rfl rfl rfl
  · by_cases hother : other = task
    · subst hother
      exact hwoken hwaiting
    · simp only [Board.setStage, Function.update_of_ne hother] at hstage
      exact hacc.dropping other hstage hwaiting

omit [DecidableEq τ] in
/-- While no task has the read lock of the futex, a drop may move the waiters. -/
theorem of_drop (hacc : Accounts board pc readers writers owner)
    (hunguarded : board.readers () = ∅) (store : ListStore τ Unit Queue)
    (hlist : store.list = board.store.list)
    (hinbox : ∀ waiter ∈ store.inbox (), waiter ∈ RwLock.inbox board)
    (hread : ∀ waiter ∈ store.queues () .read,
      waiter ∈ RwLock.inbox board ∨ waiter ∈ readQueue board) :
    Accounts (board.setStore store) pc readers writers owner := by
  have hreads (other : τ) : (holds (pc other)).reads = [] := by
    rw [List.eq_nil_iff_forall_not_mem]
    intro futex hmem
    have hguard := ((hco.fits other).reads futex).mpr hmem
    rw [hunguarded] at hguard
    simp at hguard
  have hgranted (other : τ) : Granted (board.setStore store) pc other ↔ Granted board pc other := by
    simp only [Granted, Board.setStore, hlist]
  refine ⟨fun other => ?_, hacc.books, fun other => ?_, fun hempty => ?_, fun hempty => ?_,
    fun other waiter hmem => ?_, hacc.dropping⟩
  · obtain ⟨hreads, hwrites, howns⟩ := hacc.roles other
    rw [← hgranted other] at hreads howns
    exact ⟨hreads, hwrites, howns⟩
  · obtain ⟨hleads, hsnapshot, -, hbatched⟩ := hacc.points other
    refine ⟨hleads, hsnapshot, Stocked.of_unguarded (hreads other), ?_⟩
    rw [Board.setStore, hlist]
    exact hbatched
  · have hnone := hacc.inbox hempty
    rw [List.eq_nil_iff_forall_not_mem]
    intro waiter hmem
    have hmem' := hinbox waiter hmem
    rw [hnone] at hmem'
    cases hmem'
  · rcases hacc.queue hempty with hqueue | hpops
    · refine Or.inl ?_
      rw [List.eq_nil_iff_forall_not_mem]
      intro waiter hmem
      rcases hread waiter hmem with hmem' | hmem'
      · rw [hacc.inbox hempty] at hmem'
        cases hmem'
      · rw [hqueue] at hmem'
        cases hmem'
    · exact Or.inr hpops
  · rw [Board.setStore, hlist] at hmem
    exact hacc.batches other waiter hmem

end Coherent

end Accounts

end RwLock

end AsyncMutex

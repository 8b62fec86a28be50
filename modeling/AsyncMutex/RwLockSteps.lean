import AsyncMutex.RwLockPopping

/-!
# The steps of the reader-writer lock

Every step of `read`, `write`, the guards and their futures keeps the invariant,
and none of them panics.
-/

namespace AsyncMutex

namespace RwLock

variable {τ : Type}

theorem point_of_wake {point : Point τ} (hcode : code point = .call .wake) :
    point = .readUnlock .wake ∨ point = .writeUnlock .wake ∨
      point = .writeUnlock .wakeReader := by
  cases point with
  | loop queue current =>
      simp only [code, lockOp] at hcode
      split at hcode <;> cases hcode
  | readUnlock point =>
      cases point with
      | wake => exact Or.inl rfl
      | check current =>
          simp only [code, readUnlockOp] at hcode
          split at hcode <;> cases hcode
      | _ => cases hcode
  | writeUnlock point =>
      cases point with
      | wake => exact Or.inr (Or.inl rfl)
      | wakeReader => exact Or.inr (Or.inr rfl)
      | loop hasReaders current =>
          simp only [code, writeUnlockOp] at hcode
          split at hcode
          · cases hcode
          · split at hcode <;> cases hcode
      | _ => cases hcode
  | _ => cases hcode

theorem point_of_borrow {point : Point τ} {futex : Unit}
    (hcode : code point = .call (.borrow futex)) :
    (∃ current, point = .readUnlock (.borrow current)) ∨ point = .writeUnlock .borrow ∨
      ∃ hasReaders current, point = .writeUnlock (.reborrow hasReaders current) := by
  cases point with
  | loop queue current =>
      simp only [code, lockOp] at hcode
      split at hcode <;> cases hcode
  | readUnlock point =>
      cases point with
      | borrow current => exact Or.inl ⟨current, rfl⟩
      | check current =>
          simp only [code, readUnlockOp] at hcode
          split at hcode <;> cases hcode
      | _ => cases hcode
  | writeUnlock point =>
      cases point with
      | borrow => exact Or.inr (Or.inl rfl)
      | reborrow hasReaders current => exact Or.inr (Or.inr ⟨hasReaders, current, rfl⟩)
      | loop hasReaders current =>
          simp only [code, writeUnlockOp] at hcode
          split at hcode
          · cases hcode
          · split at hcode <;> cases hcode
      | _ => cases hcode
  | _ => cases hcode

theorem point_of_waiting {point : Point τ} {queue : Queue}
    (hslot : (holds point).slot = .waiting queue) : point = .waiting queue := by
  cases point with
  | waiting queue' =>
      cases hslot
      rfl
  | readUnlock point => cases point <;> cases hslot
  | writeUnlock point => cases point <;> cases hslot
  | _ => cases hslot

namespace Inv

variable [DecidableEq τ] {board board' : LockBoard τ} {pc : τ → Point τ} {task : τ}
  {readers writers : Finset τ} {owner : Option τ}

section Borrow

variable (hco : (client : Client τ Unit _ _ Unit _ _).Coherent holds board pc)
include hco

/-- Who has borrowed the queues has the lock, or has popped one who does. -/
theorem exists_holder (hacc : Accounts board pc readers writers owner)
    (hborrow : (holds (pc task)).borrow = some ()) :
    ∃ holder, (holder = task ∨ (pc holder).waits ≠ none) ∧
      (holder ∈ readers ∨ owner = some holder) := by
  have hsnapshot := (hacc.points task).snapshot
  have hself (h : (pc task).reads = true ∨ (pc task).owns = true) :
      ∃ holder, (holder = task ∨ (pc holder).waits ≠ none) ∧
        (holder ∈ readers ∨ owner = some holder) :=
    ⟨task, Or.inl rfl, h.imp hacc.mem_readers hacc.owner_eq⟩
  have hhand (hhand : (holds (pc task)).hand = true)
      (hrelease : code (pc task) = .call (.release ())) :
      ∃ holder, (holder = task ∨ (pc holder).waits ≠ none) ∧
        (holder ∈ readers ∨ owner = some holder) := by
    obtain ⟨waiter, hwaiter⟩ := hco.exists_handle hhand (by simp [client, hrelease])
      (by simp [client, hrelease])
    have hwaits := Accounts.waits_of_listed hco (Or.inr (Or.inl ⟨task, hwaiter⟩))
    have hgranted : Granted board pc waiter := Or.inl ⟨task, hwaiter⟩
    refine ⟨waiter, Or.inr (by simp [hwaits]), ?_⟩
    cases hqueue : board.store.queue waiter with
    | read =>
        rw [hqueue] at hwaits
        exact Or.inl ((hacc.roles waiter).reads.mp (Or.inr ⟨hwaits, hgranted⟩))
    | write =>
        rw [hqueue] at hwaits
        exact Or.inr ((hacc.roles waiter).owns.mp (Or.inr ⟨hwaits, hgranted⟩))
  cases hpc : pc task with
  | readUnlock point =>
      rw [hpc] at hborrow hsnapshot hself hhand
      cases point with
      | loop current => exact hself (Or.inl rfl)
      | pop count => exact hself (Or.inr rfl)
      | release => exact hhand rfl rfl
      | popReader => exact hsnapshot.elim
      | leave => exact hsnapshot.elim
      | _ => cases hborrow
  | writeUnlock point =>
      rw [hpc] at hborrow hself hhand
      cases point with
      | load => exact hself (Or.inr rfl)
      | isEmpty current => exact hself (Or.inr rfl)
      | loop hasReaders current => exact hself (Or.inr rfl)
      | popWriter current => exact hself (Or.inl rfl)
      | popMany current => exact hself (Or.inl rfl)
      | releaseReaders current => exact hself (Or.inl rfl)
      | pop => exact hself (Or.inr rfl)
      | release => exact hhand rfl rfl
      | _ => cases hborrow
  | _ =>
      rw [hpc] at hborrow
      cases hborrow

theorem borrow (hinv : Inv board pc) {futex : Unit}
    (hcode : code (pc task) = .call (.borrow futex)) : board.borrowed futex = none := by
  obtain ⟨readers, writers, owner, hacc⟩ := hinv
  have hpoints := point_of_borrow hcode
  cases hborrowed : board.borrowed futex with
  | none => rfl
  | some other =>
      have hholds := ((hco.fits other).borrow futex).mp hborrowed
      obtain ⟨holder, hholder, hlock⟩ := exists_holder hco hacc hholds
      have hne : holder ≠ task := by
        rintro rfl
        rcases hholder with rfl | hwaits
        · rcases hpoints with ⟨current, hpc⟩ | hpc | ⟨hasReaders, current, hpc⟩ <;>
            rw [hpc] at hholds <;> cases hholds
        · rcases hpoints with ⟨current, hpc⟩ | hpc | ⟨hasReaders, current, hpc⟩ <;>
            rw [hpc] at hwaits <;> exact absurd rfl hwaits
      rcases hpoints with ⟨current, hpc⟩ | hpc | ⟨hasReaders, current, hpc⟩
      · have hleads : (pc task).Leads := by
          rw [hpc]
          trivial
        have hreaders := hacc.readers_of_leads hleads
        rcases hlock with hmem | howner
        · rw [hreaders, Finset.mem_singleton] at hmem
          exact absurd hmem hne
        · have hempty := hacc.readers_eq_empty howner
          rw [hreaders] at hempty
          simp at hempty
      all_goals
        have howner : owner = some task := hacc.owner_eq (by rw [hpc]; rfl)
        rcases hlock with hmem | hother
        · rw [hacc.readers_eq_empty howner] at hmem
          simp at hmem
        · rw [howner] at hother
          exact absurd (Option.some.inj hother).symm hne

end Borrow

theorem start (hinv : Inv board pc) {call : Call} {pc' : Point τ}
    (hstart : RwLock.start (pc task) call = some pc') :
    Inv board (Function.update pc task pc') := by
  obtain ⟨readers, writers, owner, hacc⟩ := hinv
  refine ⟨readers, writers, owner, ?_⟩
  unfold RwLock.start at hstart
  split at hstart <;> cases hstart
  case h_1 _ hpc =>
    refine hacc.advance rfl rfl rfl rfl ?_ ?_ ?_ ?_ ?_ ?_
      ⟨fun h => h.elim, trivial, trivial, trivial⟩ (fun _ _ => rfl) (by simp) <;> rw [hpc] <;> rfl
  case h_2 _ hpc =>
    refine hacc.advance rfl rfl rfl rfl ?_ ?_ ?_ ?_ ?_ ?_
      ⟨fun h => h.elim, trivial, trivial, trivial⟩ (fun _ _ => rfl) (by simp) <;> rw [hpc] <;> rfl
  case h_3 _ queue hpc =>
    cases queue <;>
      refine hacc.advance rfl rfl rfl rfl ?_ ?_ ?_ ?_ ?_ ?_
        ⟨fun h => h.elim, trivial, trivial, trivial⟩ (fun _ _ => rfl) (by simp [unlockOf]) <;>
      rw [hpc] <;> rfl

theorem quiet (hco : (client : Client τ Unit _ _ Unit _ _).Coherent holds board pc)
    (hinv : Inv board pc) {input : Board.Input τ Unit Queue ℕ}
    (hasks : (client : Client τ Unit _ _ Unit _ _).Asks (pc task) input)
    (hdrop : input = .drop → usage.mayDrop (pc task) (board.awake task) = true)
    (hstep : board.Step task input none board') : Inv board' pc := by
  obtain ⟨readers, writers, owner, hacc⟩ := hinv
  refine ⟨readers, writers, owner, ?_⟩
  cases hstep with
  | wake waiter hhandle => exact hacc.wake hhandle
  | requeue futex hlist => exact absurd (hasks _ rfl) (code_ne_requeue _ _)
  | silent => exact hacc
  | requeueStore futex waiter hmem hactivity =>
      exact absurd ((hco.fits task).requeueing futex hactivity) (code_ne_requeue _ _)
  | drop hstage =>
      apply hacc.drop
      intro hpc
      have hmay := hdrop rfl
      rw [hpc] at hmay
      exact hmay
  | dropFlip futex hstage hreaders =>
      refine hacc.of_drop hco hreaders _ rfl ?_ ?_
      · simp
      · intro waiter hmem
        simp only [Function.update_self, List.mem_append] at hmem
        rcases hmem with hmem | hmem
        · exact Or.inr hmem
        · exact Or.inl (Accounts.mem_arrivals.mp hmem).1
  | dropCancel futex hstage hreaders hmem =>
      refine hacc.of_drop hco hreaders _ rfl (fun _ h => h) ?_
      intro waiter hwaiter
      simp only [FutexStore.cancel, ListStore.setQueue, Function.update_self,
        Function.update_apply] at hwaiter
      split at hwaiter
      case isTrue heq =>
        rw [← heq] at hwaiter
        exact Or.inr (List.mem_of_mem_erase hwaiter)
      case isFalse => exact Or.inr hwaiter

omit [DecidableEq τ] in
theorem checkAt_eq_some {current : FutexAtom τ ℕ} (hreaders : (atomOf current).readers ≠ 0) :
    checkAt current = some (.readUnlock (.check current)) :=
  if_neg hreaders

omit [DecidableEq τ] in
theorem writeAt_eq_some {hasReaders : Bool} {current : FutexAtom τ ℕ}
    (hreaders : (atomOf current).readers = 0) (hwriters : (atomOf current).writers ≠ 0) :
    writeAt hasReaders current = some (.writeUnlock (.loop hasReaders current)) := by
  apply if_neg
  rintro (h | h)
  · exact h hreaders
  · exact hwriters h

omit [DecidableEq τ] in
theorem countAt_eq_some {count : ℕ} {current : FutexAtom τ ℕ} (hcount : count ≠ 0) :
    countAt count current = some (.writeUnlock (.countLoop count current)) := by
  apply if_neg
  omega

omit [DecidableEq τ] in
/-- A reader sees that there are readers. -/
theorem readers_ne_zero (hacc : Accounts board pc readers writers owner)
    (hreads : (pc task).reads = true) : (word board).readers ≠ 0 := by
  rw [hacc.books.readerCount]
  exact Nat.ne_of_gt (Finset.card_pos.mpr ⟨task, hacc.mem_readers hreads⟩)

omit [DecidableEq τ] in
/-- The writer sees that there are no readers. -/
theorem writer_word (hacc : Accounts board pc readers writers owner) {point : WriteUnlock τ}
    (hpc : pc task = .writeUnlock point) (hwrites : point.writes = true) :
    (word board).readers = 0 ∧ (word board).writers ≠ 0 := by
  have howns : (pc task).owns = true := by
    rw [hpc]
    cases point <;> simp_all [Point.owns, WriteUnlock.writes]
  have hmem : task ∈ writers := hacc.mem_writers (by rw [hpc]; exact hwrites)
  constructor
  · rw [hacc.books.readerCount, hacc.readers_eq_empty (hacc.owner_eq howns)]
    rfl
  · rw [hacc.books.writerCount]
    exact Nat.ne_of_gt (Finset.card_pos.mpr ⟨task, hmem⟩)

/-- A step of `read_unlock` that changes neither the word nor a list. -/
theorem readOn (hacc : Accounts board pc readers writers owner) {point point' : ReadUnlock τ}
    (hpc : pc task = .readUnlock point) (hreads : point'.reads = point.reads)
    (howns : (Point.readUnlock point').owns = (Point.readUnlock point).owns)
    (hpoint : PointInv board task (.readUnlock point'))
    (hatom : board'.atom = board.atom) (hstore : board'.store = board.store)
    (hhandle : board'.handle = board.handle) (hawake : board'.awake = board.awake)
    (hstage : board'.stage = board.stage) :
    Inv board' (Function.update pc task (.readUnlock point')) := by
  refine ⟨readers, writers, owner, hacc.advance hatom hstore hhandle hawake ?_ ?_ ?_ ?_ ?_ ?_
    hpoint (fun _ _ => by rw [hstage]) (by simp)⟩ <;> rw [hpc]
  · exact hreads
  · rfl
  · exact howns
  · rfl
  · rfl
  · rfl

/-- A step of `write_unlock` that changes neither the word nor a list. -/
theorem writeOn (hacc : Accounts board pc readers writers owner) {point point' : WriteUnlock τ}
    (hpc : pc task = .writeUnlock point) (hreads : point'.reads = point.reads)
    (hwrites : point'.writes = point.writes)
    (howns : (Point.writeUnlock point').owns = (Point.writeUnlock point).owns)
    (hcounted : (Point.writeUnlock point').counted = (Point.writeUnlock point).counted)
    (hpops : (Point.writeUnlock point').pops = (Point.writeUnlock point).pops)
    (hpoint : PointInv board task (.writeUnlock point'))
    (hatom : board'.atom = board.atom) (hstore : board'.store = board.store)
    (hhandle : board'.handle = board.handle) (hawake : board'.awake = board.awake)
    (hstage : board'.stage = board.stage) :
    Inv board' (Function.update pc task (.writeUnlock point')) := by
  refine ⟨readers, writers, owner, hacc.advance hatom hstore hhandle hawake ?_ ?_ ?_ ?_ ?_ ?_
    hpoint (fun _ _ => by rw [hstage]) (by simp)⟩ <;> rw [hpc]
  · exact hreads
  · exact hwrites
  · exact howns
  · rfl
  · exact hcounted
  · exact hpops

/-- The end of `read_unlock` or of `write_unlock`. -/
theorem finish (hacc : Accounts board pc readers writers owner)
    (hpc : pc task = .readUnlock .done ∨ pc task = .writeUnlock .done)
    (hatom : board'.atom = board.atom) (hstore : board'.store = board.store)
    (hhandle : board'.handle = board.handle) (hawake : board'.awake = board.awake)
    (hstage : board'.stage = board.stage) :
    Inv board' (Function.update pc task .idle) := by
  refine ⟨readers, writers, owner, hacc.advance hatom hstore hhandle hawake ?_ ?_ ?_ ?_ ?_ ?_
    ⟨fun h => h.elim, trivial, trivial, trivial⟩ (fun _ _ => by rw [hstage]) (by simp)⟩ <;>
    rcases hpc with hpc | hpc <;> rw [hpc] <;> rfl

variable (hco : (client : Client τ Unit _ _ Unit _ _).Coherent holds board pc)
include hco

theorem read_answer (hacc : Accounts board pc readers writers owner) {point : ReadUnlock τ}
    (hpc : pc task = .readUnlock point) {resp : Resp τ ℕ}
    (hstep : board.Step task (.call (readUnlockOp point)) (some resp) board') :
    ∃ pc', resumeRead point resp = some pc' ∧ Inv board' (Function.update pc task pc') := by
  have hpoint := hacc.points task
  rw [hpc] at hpoint
  obtain ⟨hleads, hsnapshot, hstocked, -⟩ := hpoint
  cases point with
  | load =>
      cases hstep
      have hreads : (pc task).reads = true := by
        rw [hpc]
        rfl
      have hsome := readers_ne_zero hacc hreads
      exact ⟨_, checkAt_eq_some hsome, readOn hacc hpc rfl rfl
        ⟨id, hsome, trivial, trivial⟩ rfl rfl rfl rfl rfl⟩
  | check current =>
      by_cases hslow : (atomOf current).readers = 1 ∧ 0 < (atomOf current).writers
      · simp only [readUnlockOp, if_pos hslow] at hstep
        cases hstep
        exact ⟨_, rfl, readOn hacc hpc rfl rfl
          ⟨fun _ => hleads hslow, trivial, trivial, trivial⟩ rfl rfl rfl rfl rfl⟩
      · simp only [readUnlockOp, if_neg hslow] at hstep
        cases hstep
        case cmpxchgWeak => exact ⟨_, rfl, _, _, _, hacc.releaseRead hpc hslow⟩
        case cmpxchgWeakFails =>
          have hreads : (pc task).reads = true := by
            rw [hpc]
            rfl
          have hsome := readers_ne_zero hacc hreads
          exact ⟨_, checkAt_eq_some hsome, readOn hacc hpc rfl rfl
            ⟨id, hsome, trivial, trivial⟩ rfl rfl rfl rfl rfl⟩
  | borrow current =>
      cases hstep
      exact ⟨_, rfl, readOn hacc hpc rfl rfl ⟨hleads, trivial, trivial, trivial⟩
        rfl rfl rfl rfl rfl⟩
  | loop current =>
      cases hstep
      case cmpxchgEnqueueWeak => exact ⟨_, rfl, _, _, _, hacc.lead hco hpc⟩
      case cmpxchgEnqueueWeakFails =>
        exact ⟨_, rfl, readOn hacc hpc rfl rfl ⟨hleads, trivial, trivial, trivial⟩
          rfl rfl rfl rfl rfl⟩
  | pop count =>
      have hcount : 0 < count := hsnapshot
      cases hqueue : writeQueue board with
      | nil => exact absurd hqueue hstocked
      | cons writer rest =>
          have hlist : board.store.queues () .write = writer :: rest := hqueue
          cases hstep
          rw [hlist]
          exact ⟨.readUnlock .release, by simp [resumeRead, hcount], _, _, _,
            hacc.popWriter hco (Or.inl ⟨count, hpc⟩) (Or.inl rfl) hqueue⟩
  | release =>
      cases hstep
      exact ⟨_, rfl, readOn hacc hpc rfl rfl ⟨fun h => h.elim, trivial, trivial, trivial⟩
        rfl rfl rfl rfl rfl⟩
  | wake => cases hstep
  | popReader => exact hsnapshot.elim
  | leave => exact hsnapshot.elim
  | done =>
      cases hstep
      exact ⟨_, rfl, finish hacc (Or.inl hpc) rfl rfl rfl rfl rfl⟩

omit hco in
/-- `write_unlock` goes on with a new snapshot. -/
theorem writeAgain (hacc : Accounts board pc readers writers owner) {hasReaders : Bool}
    {point : WriteUnlock τ} (hpc : pc task = .writeUnlock point) (hwrites : point.writes = true)
    (hstocked : hasReaders = true ↔ readQueue board ≠ []) :
    ∃ pc', writeAt hasReaders (board.word ()) = some pc' ∧
      Inv board (Function.update pc task pc') := by
  have howns : (Point.writeUnlock point).owns = true := by
    cases point <;> simp_all [Point.owns, WriteUnlock.writes]
  have hcounted : (Point.writeUnlock point).counted = false := by
    cases point <;> simp_all [Point.counted, WriteUnlock.writes]
  have hreads : point.reads = false := by
    cases point <;> simp_all [WriteUnlock.reads, WriteUnlock.writes]
  have hpops : (Point.writeUnlock point).pops = false := by
    cases point <;> simp_all [Point.pops, WriteUnlock.writes]
  obtain ⟨hzero, hsome⟩ := writer_word hacc hpc hwrites
  refine ⟨_, writeAt_eq_some hzero hsome, writeOn hacc hpc hreads.symm hwrites.symm howns.symm
    hcounted.symm hpops.symm ⟨fun h => h.elim, ⟨hzero, hsome⟩, hstocked, trivial⟩
    rfl rfl rfl rfl rfl⟩

/-- A body of the loop of `write_unlock`. -/
theorem loop_answer (hacc : Accounts board pc readers writers owner) {hasReaders : Bool}
    {current : FutexAtom τ ℕ} (hpc : pc task = .writeUnlock (.loop hasReaders current))
    {resp : Resp τ ℕ}
    (hstep : board.Step task (.call (writeUnlockOp (.loop hasReaders current))) (some resp)
      board') :
    ∃ pc', resumeWrite (.loop hasReaders current) resp = some pc' ∧
      Inv board' (Function.update pc task pc') := by
  have hpoint := hacc.points task
  rw [hpc] at hpoint
  obtain ⟨-, ⟨hzero, hsome⟩, hstocked, -⟩ := hpoint
  by_cases halone : Alone hasReaders current
  · simp only [writeUnlockOp, if_pos halone] at hstep
    cases hstep
    exact ⟨_, rfl, writeOn hacc hpc rfl rfl rfl rfl rfl
      ⟨fun h => h.elim, halone, hstocked, trivial⟩ rfl rfl rfl rfl rfl⟩
  · by_cases hone : (atomOf current).writers = 1
    · simp only [writeUnlockOp, if_neg halone, if_pos hone] at hstep
      cases hstep
      case cmpxchgEnqueueWeak =>
        have hwaiters : readQueue board ≠ [] ∨ RwLock.inbox board ≠ [] := by
          by_contra hnone
          rw [not_or, not_not, not_not] at hnone
          apply halone
          have hhas : hasReaders ≠ true := fun h => hstocked.mp h hnone.1
          have hinbox : (board.word ()).inbox = none := List.head?_eq_none_iff.mpr hnone.2
          exact ⟨hone, by simpa using hhas, by simp [FutexAtom.hasNewWaiters, hinbox]⟩
        exact ⟨.writeUnlock (.popWriter (board.word ())), if_pos hone, _, _, _,
          hacc.downgrade hco hpc hone hwaiters⟩
      case cmpxchgEnqueueWeakFails => exact writeAgain hacc hpc rfl hstocked
    · simp only [writeUnlockOp, if_neg halone, if_neg hone] at hstep
      have hmany : 1 < (atomOf current).writers := by omega
      cases hstep
      case cmpxchgEnqueueWeak =>
        exact ⟨.writeUnlock .pop, (if_neg hone).trans (if_pos hmany), _, _, _,
          hacc.handOff hco hpc hmany⟩
      case cmpxchgEnqueueWeakFails => exact writeAgain hacc hpc rfl hstocked

/-- The compare-exchange that counts the readers of a downgrade. -/
theorem count_answer (hacc : Accounts board pc readers writers owner) {count : ℕ}
    {current : FutexAtom τ ℕ} (hpc : pc task = .writeUnlock (.countLoop count current))
    {resp : Resp τ ℕ}
    (hstep : board.Step task (.call (writeUnlockOp (.countLoop count current))) (some resp)
      board') :
    ∃ pc', resumeWrite (.countLoop count current) resp = some pc' ∧
      (Few board' (Function.update pc task pc') →
        Inv board' (Function.update pc task pc')) := by
  have hpoint := hacc.points task
  rw [hpc] at hpoint
  obtain ⟨-, hsnapshot, -, hbatched⟩ := hpoint
  cases hstep
  case cmpxchgWeak =>
    exact ⟨_, rfl, fun hfew => ⟨_, _, _, Accounts.countReaders hco hacc hpc hfew⟩⟩
  case cmpxchgWeakFails =>
    exact ⟨_, countAt_eq_some hsnapshot, fun _ => writeOn hacc hpc rfl rfl rfl rfl rfl
      ⟨fun h => h.elim, hsnapshot, trivial, hbatched⟩ rfl rfl rfl rfl rfl⟩

theorem write_answer (hacc : Accounts board pc readers writers owner) {point : WriteUnlock τ}
    (hpc : pc task = .writeUnlock point)
    (hcount : ∀ count current, point ≠ .countLoop count current) {resp : Resp τ ℕ}
    (hstep : board.Step task (.call (writeUnlockOp point)) (some resp) board') :
    ∃ pc', resumeWrite point resp = some pc' ∧ Inv board' (Function.update pc task pc') := by
  have hpoint := hacc.points task
  rw [hpc] at hpoint
  obtain ⟨-, hsnapshot, hstocked, hbatched⟩ := hpoint
  cases point with
  | lock =>
      cases hstep
      exact ⟨_, rfl, writeOn hacc hpc rfl rfl rfl rfl rfl
        ⟨fun h => h.elim, trivial, trivial, trivial⟩ rfl rfl rfl rfl rfl⟩
  | borrow =>
      cases hstep
      exact ⟨_, rfl, writeOn hacc hpc rfl rfl rfl rfl rfl
        ⟨fun h => h.elim, trivial, trivial, trivial⟩ rfl rfl rfl rfl rfl⟩
  | load =>
      cases hstep
      have hword := writer_word hacc hpc rfl
      exact ⟨_, rfl, writeOn hacc hpc rfl rfl rfl rfl rfl
        ⟨fun h => h.elim, hword, trivial, trivial⟩ rfl rfl rfl rfl rfl⟩
  | isEmpty current =>
      cases hstep
      have hempty : (!(board.store.queues () .read).isEmpty) = true ↔ readQueue board ≠ [] := by
        rw [Bool.not_eq_true', Bool.eq_false_iff, Ne, List.isEmpty_iff]
        rfl
      exact ⟨_, writeAt_eq_some hsnapshot.1 hsnapshot.2, writeOn hacc hpc rfl rfl rfl rfl rfl
        ⟨fun h => h.elim, hsnapshot, hempty, trivial⟩ rfl rfl rfl rfl rfl⟩
  | loop hasReaders current => exact loop_answer hco hacc hpc hstep
  | free hasReaders current =>
      cases hstep
      case cmpxchgWeak =>
        obtain ⟨hone, hhas, hnew⟩ := hsnapshot
        have hread : readQueue board = [] := by
          by_contra hsome
          rw [hstocked.mpr hsome] at hhas
          cases hhas
        have hinbox : RwLock.inbox board = [] := by
          have hnone : (board.word ()).inbox = none := by
            simpa [FutexAtom.hasNewWaiters] using hnew
          exact List.head?_eq_none_iff.mp hnone
        exact ⟨_, rfl, _, _, _, hacc.releaseWrite hpc hone hread hinbox⟩
      case cmpxchgWeakFails =>
        have hword := writer_word hacc hpc rfl
        exact ⟨_, rfl, writeOn hacc hpc rfl rfl rfl rfl rfl
          ⟨fun h => h.elim, hword, hstocked, trivial⟩ rfl rfl rfl rfl rfl⟩
  | reborrow hasReaders current =>
      cases hstep
      exact ⟨_, writeAt_eq_some hsnapshot.1 hsnapshot.2, writeOn hacc hpc rfl rfl rfl rfl rfl
        ⟨fun h => h.elim, hsnapshot, hstocked, trivial⟩ rfl rfl rfl rfl rfl⟩
  | popWriter current =>
      have hnone : board.store.queues () .write = [] := hstocked.1
      cases hstep
      rw [hnone]
      exact ⟨_, rfl, _, _, _, hacc.popNoWriter hco hpc⟩
  | popMany current =>
      cases hstep
      exact ⟨_, rfl, _, _, _, hacc.popReaders hco hpc⟩
  | releaseReaders current =>
      cases hstep
      exact ⟨_, rfl, writeOn hacc hpc rfl rfl rfl rfl rfl
        ⟨fun h => h.elim, trivial, trivial, hbatched⟩ rfl rfl rfl rfl rfl⟩
  | count current =>
      cases hstep
      have hsome : (board.store.list task).length ≠ 0 := fun hzero =>
        hbatched (List.length_eq_zero_iff.mp hzero)
      exact ⟨_, countAt_eq_some hsome, writeOn hacc hpc rfl rfl rfl rfl rfl
        ⟨fun h => h.elim, hsome, trivial, rfl⟩ rfl rfl rfl rfl rfl⟩
  | countLoop count current => exact absurd rfl (hcount count current)
  | next =>
      cases hlist : board.store.list task with
      | nil =>
          have hnext := hacc.nextReader hco hpc (Or.inr ⟨rfl, hlist⟩)
          cases hstep
          rw [hlist] at hnext ⊢
          exact ⟨_, rfl, _, _, _, hnext⟩
      | cons reader rest =>
          have hnext := hacc.nextReader hco hpc (Or.inl rfl)
          cases hstep
          rw [hlist] at hnext ⊢
          exact ⟨_, rfl, _, _, _, hnext⟩
  | wakeReader => cases hstep
  | pop =>
      cases hqueue : writeQueue board with
      | nil => exact absurd hqueue hstocked
      | cons writer rest =>
          have hlist : board.store.queues () .write = writer :: rest := hqueue
          cases hstep
          rw [hlist]
          exact ⟨.writeUnlock .release, rfl, _, _, _,
            hacc.popWriter hco (Or.inr hpc) (Or.inr rfl) hqueue⟩
  | release =>
      cases hstep
      exact ⟨_, rfl, writeOn hacc hpc rfl rfl rfl rfl rfl
        ⟨fun h => h.elim, trivial, trivial, trivial⟩ rfl rfl rfl rfl rfl⟩
  | wake => cases hstep
  | done =>
      cases hstep
      exact ⟨_, rfl, finish hacc (Or.inr hpc) rfl rfl rfl rfl rfl⟩

/-- A body of the loop of `read` or `write`. -/
theorem lock_answer (hacc : Accounts board pc readers writers owner) {queue : Queue}
    {current : FutexAtom τ ℕ} (hpc : pc task = .loop queue current) {resp : Resp τ ℕ}
    (hstep : board.Step task (.call (lockOp queue current)) (some resp) board') :
    ∃ pc', resume (.loop queue current) resp = some pc' ∧
      (Few board' (Function.update pc task pc') →
        Inv board' (Function.update pc task pc')) := by
  have hreader : task ∉ readers :=
    hacc.notMem_readers (by rw [hpc]; rfl) (by rw [hpc]; rfl)
  have hwriter : task ∉ writers := hacc.notMem_writers (by rw [hpc]; rfl)
  have hagain : Inv board (Function.update pc task (.loop queue (board.word ()))) := by
    refine ⟨_, _, _, hacc.advance rfl rfl rfl rfl ?_ ?_ ?_ ?_ ?_ ?_
      ⟨fun h => h.elim, trivial, trivial, trivial⟩ (fun _ _ => rfl) (by simp)⟩ <;>
      rw [hpc] <;> rfl
  by_cases htakes : Takes queue current
  · simp only [lockOp, if_pos htakes] at hstep
    cases hstep
    case cmpxchgWeak =>
      refine ⟨.guard queue, by simp [resume, htakes], fun hfew => ?_⟩
      cases queue with
      | read =>
          refine ⟨_, _, _, hacc.acquireRead hco hpc htakes ?_⟩
          rw [hacc.books.readerCount, ← Finset.card_insert_of_notMem hreader]
          refine hfew.readers _ fun other hmem => ?_
          rcases Finset.mem_insert.mp hmem with rfl | hold
          · exact Or.inl (by rw [Function.update_self]; rfl)
          · have hother : other ≠ task := by
              intro heq
              rw [heq] at hold
              exact hreader hold
            rw [Function.update_of_ne hother]
            exact ((hacc.roles other).reads.mpr hold).imp_right fun h =>
              ⟨h.1, (Accounts.granted_iff rfl (fun _ _ => rfl) (by rw [hpc]; rfl) rfl).mpr h.2⟩
      | write => exact ⟨_, _, _, hacc.acquireWrite hco hpc htakes⟩
    case cmpxchgWeakFails => exact ⟨_, rfl, fun _ => hagain⟩
  · simp only [lockOp, if_neg htakes] at hstep
    cases hstep
    case cmpxchgWaitWeak =>
      refine ⟨.entered queue, by simp [resume, htakes], fun hfew => ?_⟩
      cases queue with
      | read =>
          have hword : word (Accounts.pushed board task (word board)) = word board :=
            Accounts.word_setAtom board (Atom.readers_decode_lt _) (Atom.writers_decode_lt _)
          refine ⟨_, _, _, hacc.sleep hco hpc hword (by simp [hwriter]) (fun _ _ => Iff.rfl) ?_
            hacc.books fun other => (hacc.points other).leads⟩
          rintro rfl
          exact htakes (hacc.books.writerCount.trans rfl)
      | write =>
          have hbound : (word board).writers + 1 < 2 ^ 32 := by
            rw [hacc.books.writerCount, ← Finset.card_insert_of_notMem hwriter]
            refine hfew.writers _ fun other hmem => ?_
            rcases Finset.mem_insert.mp hmem with rfl | hold
            · rw [Function.update_self]
              rfl
            · have hother : other ≠ task := by
                intro heq
                rw [heq] at hold
                exact hwriter hold
              rw [Function.update_of_ne hother]
              exact (hacc.roles other).writes.mpr hold
          have hword : word (Accounts.pushed board task (awaited .write (word board))) =
              awaited .write (word board) :=
            Accounts.word_setAtom board (Atom.readers_decode_lt _) hbound
          refine ⟨_, insert task writers, _, hacc.sleep hco hpc hword (by simp)
            (fun other hother => by simp [hother]) (by simp) ?_ fun other hleads => ?_⟩
          · obtain ⟨hreaders, hwriters, hexclusive, hfree⟩ := hacc.books
            refine ⟨hreaders, ?_, hexclusive, fun hnone hempty => ?_⟩
            · rw [Finset.card_insert_of_notMem hwriter, ← hwriters]
              rfl
            · refine absurd ?_ htakes
              have hzero := hfree hnone hempty
              rw [hempty] at hreaders
              rw [hzero] at hwriters
              have hatom : word board = ⟨0, 0⟩ := Atom.ext hreaders hwriters
              exact hatom
          · obtain ⟨hone, hpos⟩ := (hacc.points other).leads hleads
            exact ⟨hone, Nat.lt_succ_of_lt hpos⟩
    case cmpxchgWaitWeakFails => exact ⟨_, rfl, fun _ => hagain⟩

theorem call_answer (hinv : Inv board pc) {op : Op τ Unit Queue ℕ}
    (hcode : code (pc task) = .call op) {resp : Resp τ ℕ}
    (hstep : board.Step task (.call op) (some resp) board') :
    ∃ pc', resume (pc task) resp = some pc' ∧
      (Few board' (Function.update pc task pc') →
        Inv board' (Function.update pc task pc')) := by
  obtain ⟨readers, writers, owner, hacc⟩ := hinv
  cases hpc : pc task with
  | waiter queue =>
      rw [hpc] at hcode
      cases hcode
      cases hstep
      have hunpopped : ¬ board.Popped task := by
        apply (hco.unlisted_of_unused _).2
        rw [hpc]
        trivial
      exact ⟨_, rfl, fun _ => ⟨_, _, _, hacc.newWaiter hpc fun other hmem =>
        hunpopped (Or.inr ⟨other, hmem⟩)⟩⟩
  | load queue =>
      rw [hpc] at hcode
      cases hcode
      cases hstep
      refine ⟨_, rfl, fun _ => ⟨_, _, _, hacc.advance rfl rfl rfl rfl ?_ ?_ ?_ ?_ ?_ ?_
        ⟨fun h => h.elim, trivial, trivial, trivial⟩ (fun _ _ => rfl) (by simp)⟩⟩ <;>
        rw [hpc] <;> rfl
  | loop queue current =>
      rw [hpc] at hcode
      cases hcode
      exact lock_answer hco hacc hpc hstep
  | entered queue =>
      rw [hpc] at hcode
      cases hcode
      cases hstep
      refine ⟨_, rfl, fun _ => ⟨_, _, _, hacc.advance rfl rfl rfl rfl ?_ ?_ ?_ ?_ ?_ ?_
        ⟨fun h => h.elim, trivial, trivial, trivial⟩ (fun other hother => ?_) ?_⟩⟩
      all_goals try (rw [hpc]; cases queue <;> rfl)
      · exact Function.update_of_ne hother _ _
      · simp [Board.setStage]
  | readUnlock point =>
      rw [hpc] at hcode
      cases hcode
      obtain ⟨pc', hresume, hinv⟩ := read_answer hco hacc hpc hstep
      exact ⟨pc', hresume, fun _ => hinv⟩
  | writeUnlock point =>
      rw [hpc] at hcode
      cases hcode
      cases point with
      | countLoop count current => exact count_answer hco hacc hpc hstep
      | _ =>
          obtain ⟨pc', hresume, hinv⟩ := write_answer hco hacc hpc (by simp) hstep
          exact ⟨pc', hresume, fun _ => hinv⟩
  | idle =>
      rw [hpc] at hcode
      cases hcode
  | waiting queue =>
      rw [hpc] at hcode
      cases hcode
  | guard queue =>
      rw [hpc] at hcode
      cases hcode

/-- The end of a wakeup, of a poll or of a drop. -/
theorem go_answer (hinv : Inv board pc) {resp : Resp τ ℕ}
    (hstep : board.Step task .go (some resp) board') :
    ∃ pc', resume (pc task) resp = some pc' ∧ Inv board' (Function.update pc task pc') := by
  obtain ⟨readers, writers, owner, hacc⟩ := hinv
  have hwaiting (hstage : board.stage task = .waiting ∨ board.stage task = .dropping) :
      ∃ queue, pc task = .waiting queue := by
    obtain ⟨queue, hslot⟩ := (hco.fits task).slot_of_stage hstage
    exact ⟨queue, point_of_waiting hslot⟩
  cases hstep with
  | wakeDone hactivity =>
      rcases point_of_wake ((hco.fits task).waking hactivity) with hpc | hpc | hpc
      · rw [hpc]
        exact ⟨_, rfl, readOn hacc hpc rfl rfl ⟨fun h => h.elim, trivial, trivial, trivial⟩
          rfl rfl rfl rfl rfl⟩
      · rw [hpc]
        exact ⟨_, rfl, writeOn hacc hpc rfl rfl rfl rfl rfl
          ⟨fun h => h.elim, trivial, trivial, trivial⟩ rfl rfl rfl rfl rfl⟩
      · rw [hpc]
        exact ⟨_, rfl, writeOn hacc hpc rfl rfl rfl rfl rfl
          ⟨fun h => h.elim, trivial, trivial, trivial⟩ rfl rfl rfl rfl rfl⟩
  | requeueDone futex hlist hactivity howner =>
      exact absurd ((hco.fits task).requeueing futex hactivity) (code_ne_requeue _ _)
  | ready hstage hawake =>
      obtain ⟨queue, hpc⟩ := hwaiting (Or.inl hstage)
      have hawake' : (board.setStage task .free).awake task = true := hawake
      rw [hpc]
      refine ⟨.guard queue, by cases queue <;> rfl, readers, writers, owner, ?_⟩
      rw [← Board.setAwake_self hawake']
      exact hacc.awakeReturns hco hpc hawake (Or.inl rfl)
  | cancelWoken hstage hawake =>
      obtain ⟨queue, hpc⟩ := hwaiting (Or.inr hstage)
      rw [hpc]
      exact ⟨unlockOf queue, by cases queue <;> rfl, _, _, _,
        hacc.awakeReturns hco hpc hawake (Or.inr rfl)⟩
  | cancelSleeping hstage hawake hinbox hqueues hlist hhandle =>
      obtain ⟨queue, hpc⟩ := hwaiting (Or.inr hstage)
      cases queue with
      | read =>
          rw [hpc]
          exact ⟨.idle, rfl, _, _, _, hacc.abort hpc hawake hlist hhandle⟩
      | write =>
          rw [hacc.dropping task hstage hpc] at hawake
          cases hawake

end Inv

/-- The reader-writer lock never panics and keeps its invariant while the halves
of its word suffice. -/
theorem invariant_of_few [DecidableEq τ] :
    (client : Client τ Unit _ _ Unit _ _).Invariant holds usage
      (fun (board : LockBoard τ) _ pc => Inv board pc) Few where
  borrow _ _ _ _ _ hco hinv hcode := hinv.borrow hco hcode
  start _ _ _ _ _ _ _ hinv _ hstart _ := hinv.start hstart
  quiet _ _ _ _ _ _ hco hinv hasks hdrop hstep := hinv.quiet hco hasks hdrop hstep
  answer board memory pc task input resp board' hco hinv hasks hstep := by
    cases input with
    | call op => exact hinv.call_answer hco (hasks op rfl) hstep
    | go =>
        obtain ⟨pc', hresume, hinv'⟩ := hinv.go_answer hco hstep
        exact ⟨pc', hresume, fun _ => hinv'⟩
    | drop => cases hstep
  own _ _ _ task _ _ hcode := by
    simp only [client] at hcode
    exact absurd hcode (code_ne_own _)

/-- Fewer than `2 ^ 32` tasks are always few enough. -/
theorem invariant [DecidableEq τ] [Fintype τ] (hcard : Fintype.card τ < 2 ^ 32) :
    (client : Client τ Unit _ _ Unit _ _).Invariant holds usage
      fun (board : LockBoard τ) _ pc => Inv board pc :=
  invariant_of_few.imp (fun _ _ _ hinv => hinv) (fun _ _ _ hinv => hinv) fun board pc _ =>
    few_of_card hcard board pc

end RwLock

end AsyncMutex

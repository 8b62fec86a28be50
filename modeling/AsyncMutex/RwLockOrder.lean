import AsyncMutex.RwLock
import AsyncMutex.Turns
import AsyncMutex.ArrivalOrder

/-!
# The reader-writer lock serves its waiters in order

Writers get the lock in the order in which they began to wait.  A reader that
comes while a writer waits does not get the lock before that writer, and the
readers that wait when the last writer leaves get it before any later writer.
-/

namespace AsyncMutex

/-- The future is being dropped. -/
def Stage.drops {φ : Type} : Stage φ → Bool
  | .dropping => true
  | _ => false

namespace RwLock

variable {τ ω : Type}

/-! ## Readers behind a writer -/

/-- The task does nothing, or is in `read` without the lock. -/
def Point.tries : Point τ → Bool
  | .idle => true
  | .waiter .read => true
  | .load .read => true
  | .loop .read _ => true
  | .entered .read => true
  | .waiting .read => true
  | _ => false

/-- The reader cannot get the lock while a writer waits. -/
structure Behind (board : LockBoard τ) (pc : τ → Point τ) (reader : τ) : Prop where
  tries : (pc reader).tries = true
  unhanded : ∀ other, board.handle other ≠ some reader
  unlisted : ∀ other, reader ∉ board.store.list other
  asleep : (pc reader).waits ≠ none → board.awake reader = false
  unpopped : ∀ other, (pc other).pops = true → reader ∉ readQueue board

theorem waits_of_tries {point : Point τ} (htries : point.tries = true) :
    point.waits = none ∨ point.waits = some .read := by
  cases point with
  | entered queue => cases queue <;> simp_all [Point.tries, Point.waits]
  | waiting queue => cases queue <;> simp_all [Point.tries, Point.waits]
  | _ => exact Or.inl rfl

/-- The point of a task that pops from `READ_QUEUE`. -/
theorem point_of_popRead {point : Point τ} (hcode : code point = .call (.pop () .read)) :
    point = .readUnlock .popReader := by
  cases point with
  | loop queue current =>
      simp only [code, lockOp] at hcode
      split at hcode <;> cases hcode
  | readUnlock point =>
      cases point with
      | check current =>
          simp only [code, readUnlockOp] at hcode
          split at hcode <;> cases hcode
      | popReader => rfl
      | _ => cases hcode
  | writeUnlock point =>
      cases point with
      | loop hasReaders current =>
          simp only [code, writeUnlockOp] at hcode
          split at hcode
          · cases hcode
          · split at hcode <;> cases hcode
      | _ => cases hcode
  | _ => cases hcode

/-- The point of a task that pops many waiters. -/
theorem point_of_popMany {point : Point τ} {futex : Unit} {count : ℕ} {queue : Queue}
    (hcode : code point = .call (.popMany futex count queue)) :
    ∃ current, point = .writeUnlock (.popMany current) ∧ queue = .read ∧
      count = WaiterList.usizeMax := by
  cases point with
  | loop queue current =>
      simp only [code, lockOp] at hcode
      split at hcode <;> cases hcode
  | readUnlock point =>
      cases point with
      | check current =>
          simp only [code, readUnlockOp] at hcode
          split at hcode <;> cases hcode
      | _ => cases hcode
  | writeUnlock point =>
      cases point with
      | loop hasReaders current =>
          simp only [code, writeUnlockOp] at hcode
          split at hcode
          · cases hcode
          · split at hcode <;> cases hcode
      | popMany current =>
          cases hcode
          exact ⟨current, rfl, rfl, rfl⟩
      | _ => cases hcode
  | _ => cases hcode

/-- The points of a task that takes the inbox to the queues. -/
theorem point_of_enqueue {point : Point τ} {futex : Unit} {current : FutexAtom τ ℕ} {new : ℕ}
    (hcode : code point = .call (.cmpxchgEnqueueWeak futex current new)) :
    point = .readUnlock (.loop current) ∨
      ∃ hasReaders, point = .writeUnlock (.loop hasReaders current) := by
  cases point with
  | loop queue current =>
      simp only [code, lockOp] at hcode
      split at hcode <;> cases hcode
  | readUnlock point =>
      cases point with
      | check current =>
          simp only [code, readUnlockOp] at hcode
          split at hcode <;> cases hcode
      | loop current =>
          cases hcode
          exact Or.inl rfl
      | _ => cases hcode
  | writeUnlock point =>
      cases point with
      | loop hasReaders current =>
          simp only [code, writeUnlockOp] at hcode
          split at hcode
          · cases hcode
          · split at hcode <;> cases hcode <;> exact Or.inr ⟨hasReaders, rfl⟩
      | _ => cases hcode
  | _ => cases hcode

/-- Where the code goes on to pop the readers. -/
theorem pops_of_resume {point point' : Point τ} {resp : Resp τ ℕ}
    (hresume : resume point resp = some point') (hpops : point'.pops = true) :
    point.pops = true ∨ resp = .success ∧ ∃ hasReaders current,
      point = .writeUnlock (.loop hasReaders current) ∧ (atomOf current).writers = 1 := by
  cases point with
  | readUnlock point =>
      simp only [resume] at hresume
      unfold resumeRead at hresume
      split at hresume <;> first
        | (rw [checkAt_eq hresume] at hpops; cases hpops)
        | (split at hresume; cases hresume; cases hpops; cases hresume)
        | (cases hresume; cases hpops)
        | cases hresume
  | writeUnlock point =>
      simp only [resume] at hresume
      unfold resumeWrite at hresume
      split at hresume
      case h_6 hasReaders current =>
        split at hresume
        case isTrue hone => exact Or.inr ⟨rfl, hasReaders, current, rfl, hone⟩
        case isFalse =>
          split at hresume <;> cases hresume
          cases hpops
      all_goals first
        | exact Or.inl rfl
        | (rw [writeAt_eq hresume] at hpops; cases hpops)
        | (rw [countAt_eq hresume] at hpops; cases hpops)
        | (cases hresume; cases hpops)
        | cases hresume
  | loop queue current =>
      cases resp with
      | success =>
          simp only [resume, Option.some.injEq] at hresume
          rw [← hresume] at hpops
          split at hpops <;> cases hpops
      | failure => cases hresume; cases hpops
      | _ => cases hresume
  | waiter =>
      cases resp <;> cases hresume
      cases hpops
  | load =>
      cases resp <;> cases hresume
      cases hpops
  | entered =>
      cases resp <;> cases hresume
      cases hpops
  | waiting queue => cases queue <;> cases resp <;> cases hresume <;> cases hpops
  | idle => cases resp <;> cases hresume
  | guard => cases resp <;> cases hresume

/-- The task does nothing, or its `read` has not yet taken the lock or begun to
wait. -/
def Point.arrives : Point τ → Bool
  | .idle => true
  | .waiter .read => true
  | .load .read => true
  | .loop .read _ => true
  | _ => false

/-- Where the code of `read` goes on. -/
theorem tries_of_resume {point point' : Point τ} {resp : Resp τ ℕ}
    (hresume : resume point resp = some point') (htries : point.tries = true) :
    point'.tries = true ∨ (resp = .success ∧ ∃ current, point = .loop .read current ∧
        Takes .read current) ∨
      (resp = .ready ∨ resp = .cancelWoken) ∧ point = .waiting .read := by
  cases point with
  | idle => cases resp <;> cases hresume
  | waiter queue =>
      cases queue <;> cases resp <;> cases hresume
      · exact Or.inl rfl
      · cases htries
  | load queue =>
      cases queue <;> cases resp <;> cases hresume
      · exact Or.inl rfl
      · cases htries
  | loop queue current =>
      cases queue with
      | write => cases htries
      | read =>
          cases resp with
          | success =>
              by_cases htakes : Takes .read current
              · exact Or.inr (Or.inl ⟨rfl, current, rfl, htakes⟩)
              · simp only [resume, if_neg htakes, Option.some.injEq] at hresume
                rw [← hresume]
                exact Or.inl rfl
          | failure =>
              cases hresume
              exact Or.inl rfl
          | _ => cases hresume
  | entered queue =>
      cases queue <;> cases resp <;> cases hresume
      · exact Or.inl rfl
      · cases htries
  | waiting queue =>
      cases queue with
      | write => cases htries
      | read =>
          cases resp with
          | ready => exact Or.inr (Or.inr ⟨Or.inl rfl, rfl⟩)
          | cancelWoken => exact Or.inr (Or.inr ⟨Or.inr rfl, rfl⟩)
          | cancelSleeping =>
              cases hresume
              exact Or.inl rfl
          | _ => cases hresume
  | guard => cases htries
  | readUnlock => cases htries
  | writeUnlock => cases htries

variable [DecidableEq τ]

section Turns

variable {board board' : LockBoard τ} {pc pc' : τ → Point τ} {readers writers : Finset τ}
  {owner : Option τ} {task : τ} {label : Label Call ω}
  (hacc : Accounts board pc readers writers owner)
  (hco : (client : Client τ Unit _ _ Unit _ _).Coherent holds board pc)
  (hturn : (client : Client τ Unit _ _ Unit _ _).Turn board () pc task label board' () pc')

theorem step_success {point : Point τ} {input : Board.Input τ Unit Queue ℕ}
    (hasks : (client : Client τ Unit _ _ Unit _ _).Asks point input)
    (hstep : board.Step task input (some .success) board') :
    ∃ new, code point = .call (.cmpxchgWeak () (board.word ()) new) ∨
      code point = .call (.cmpxchgWaitWeak () (board.word ()) new) ∨
        code point = .call (.cmpxchgEnqueueWeak () (board.word ()) new) := by
  cases hstep with
  | cmpxchgWeak futex new => exact ⟨new, Or.inl (hasks _ rfl)⟩
  | cmpxchgWaitWeak futex new => exact ⟨new, Or.inr (Or.inl (hasks _ rfl))⟩
  | cmpxchgEnqueueWeak futex new => exact ⟨new, Or.inr (Or.inr (hasks _ rfl))⟩

include hacc hturn in
/-- Only the owner of the lock downgrades it, and only when nobody else waits
for writing. -/
theorem pops_of_turn {other : τ} (hpops : (pc' other).pops = true) :
    (pc other).pops = true ∨ writers = {other} ∧ owner = some other := by
  cases hturn with
  | start hcode hstart =>
      rw [Function.update_apply] at hpops
      split at hpops
      case isTrue =>
        simp only [client] at hstart
        unfold start at hstart
        split at hstart <;> cases hstart
        case h_3 queue _ => cases queue <;> cases hpops
        all_goals cases hpops
      case isFalse => exact Or.inl hpops
  | own hcode => exact absurd hcode (code_ne_own _)
  | quiet => exact Or.inl hpops
  | @answer _ input resp _ point hasks hstep hresume =>
      rw [Function.update_apply] at hpops
      split at hpops
      case isFalse => exact Or.inl hpops
      case isTrue heq =>
        subst heq
        rcases pops_of_resume hresume hpops with hbefore | ⟨rfl, hasReaders, current, hpc, hone⟩
        · exact Or.inl hbefore
        · have hmem : other ∈ writers := hacc.mem_writers (by rw [hpc]; rfl)
          refine Or.inr ⟨?_, hacc.owner_eq (by rw [hpc]; rfl)⟩
          have hword : (word board).writers = 1 := by
            obtain ⟨new, hcode⟩ := step_success hasks hstep
            rw [hpc] at hcode
            simp only [code, writeUnlockOp] at hcode
            split at hcode
            · simp at hcode
            · simp only [Code.call.injEq, reduceCtorEq, Op.cmpxchgEnqueueWeak.injEq, true_and,
                false_or] at hcode
              rw [hcode.1] at hone
              exact hone
          obtain ⟨single, hsingle⟩ :=
            Finset.card_eq_one.mp (hacc.books.writerCount.symm.trans hword)
          rw [hsingle, Finset.mem_singleton] at hmem
          rw [hsingle, hmem]

/-- `read` takes the lock only where nobody has it or waits for it for writing. -/
theorem writers_of_takes {point : Point τ} {current : FutexAtom τ ℕ}
    {input : Board.Input τ Unit Queue ℕ} (hpoint : point = .loop .read current)
    (htakes : Takes .read current)
    (hasks : (client : Client τ Unit _ _ Unit _ _).Asks point input)
    (hstep : board.Step task input (some .success) board') : (word board).writers = 0 := by
  obtain ⟨new, hcode⟩ := step_success hasks hstep
  subst hpoint
  simp only [code, lockOp, if_pos htakes, Code.call.injEq, Op.cmpxchgWeak.injEq, true_and,
    reduceCtorEq, or_false] at hcode
  have hzero : (atomOf current).writers = 0 := htakes
  rw [hcode.1] at hzero
  exact hzero

variable {reader writer : τ}

include hacc hco in
/-- No task of the lock has the waiter of a reader that is behind. -/
theorem Behind.unpopped' (hbehind : Behind board pc reader) {input : Board.Input τ Unit Queue ℕ}
    {resp : Option (Resp τ ℕ)}
    (hasks : (client : Client τ Unit _ _ Unit _ _).Asks (pc task) input)
    (hstep : board.Step task input resp board') :
    (∀ other, board'.handle other ≠ some reader) ∧
      (∀ other, reader ∉ board'.store.list other) ∧
        (board.awake reader = false → board'.awake reader = false) := by
  refine ⟨fun other hhandle => ?_, fun other hmem => ?_, fun hasleep => ?_⟩
  · rcases hstep.handle_eq hhandle with hold | ⟨rfl, ⟨_, queue, rfl, hhead⟩ | ⟨rfl, hhead⟩⟩
    · exact hbehind.unhanded other hold
    · have hmem : reader ∈ board.store.queues () queue := List.mem_of_head? hhead
      have hwaits := Accounts.waits_of_queued hco hmem
      have hread : queue = .read := by
        rcases waits_of_tries hbehind.tries with hnone | hsome
        · rw [hnone] at hwaits
          cases hwaits
        · rw [hsome] at hwaits
          cases hwaits
          rfl
      subst hread
      have hpc := point_of_popRead (hasks _ rfl)
      have hsnapshot := (hacc.points other).snapshot
      rw [hpc] at hsnapshot
      exact hsnapshot
    · exact hbehind.unlisted other (List.mem_of_head? hhead)
  · rcases hstep.mem_list hmem with hold | ⟨rfl, _, count, queue, rfl, hfront⟩
    · exact hbehind.unlisted other hold
    · obtain ⟨current, hpc, rfl, rfl⟩ := point_of_popMany (hasks _ rfl)
      have hmem : reader ∈ board.store.queues () .read := by
        simpa [WaiterList.front] using hfront
      exact hbehind.unpopped other (by rw [hpc]; rfl) hmem
  · cases hawake : board'.awake reader with
    | false => rfl
    | true =>
        rcases hstep.awake_eq hawake with hold | hhandle
        · rw [hasleep] at hold
          cases hold
        · exact absurd hhandle (hbehind.unhanded task)

omit [DecidableEq τ] in
theorem holds_of_pops {point : Point τ} (hpops : point.pops = true) :
    (holds point).borrow = some () ∧ (holds point).reads = [()] := by
  cases point with
  | writeUnlock point => cases point <;> first | exact ⟨rfl, rfl⟩ | cases hpops
  | _ => cases hpops

include hacc hco in
/-- While a writer waits, nobody pops the waiter of a reader that is behind. -/
theorem Behind.unpopped_of_turn (hbehind : Behind board pc reader) (hwriter : writer ∈ writers)
    (howner : owner ≠ some writer)
    (hturn : (client : Client τ Unit _ _ Unit _ _).Turn board () pc task label board' () pc')
    {other : τ} (hpops : (pc' other).pops = true) : reader ∉ readQueue board' := by
  have hbefore : (pc other).pops = true := by
    rcases pops_of_turn hacc hturn hpops with hbefore | ⟨hsingle, howns⟩
    · exact hbefore
    · rw [hsingle, Finset.mem_singleton] at hwriter
      rw [hwriter] at howner
      exact absurd howns howner
  obtain ⟨hborrow, hreads⟩ := holds_of_pops hbefore
  have hold := hbehind.unpopped other hbefore
  have hkept {input : Board.Input τ Unit Queue ℕ} {resp : Option (Resp τ ℕ)}
      (hasks : (client : Client τ Unit _ _ Unit _ _).Asks (pc task) input)
      (hstep : board.Step task input resp board') : reader ∉ readQueue board' := by
    intro hmem
    rcases hstep.mem_queues hmem with hmem | hempty | ⟨-, new, rfl⟩
    · exact hold hmem
    · have hguard := ((hco.fits other).reads ()).mpr (by rw [hreads]; simp)
      rw [hempty] at hguard
      simp at hguard
    · -- the task that takes the inbox has borrowed the queues
      have hcode := point_of_enqueue (hasks _ rfl)
      have hborrow' : (holds (pc task)).borrow = some () := by
        rcases hcode with hpc | ⟨hasReaders, hpc⟩ <;> rw [hpc] <;> rfl
      by_cases hother : other = task
      · subst hother
        rcases hcode with hpc | ⟨hasReaders, hpc⟩ <;> rw [hpc] at hbefore <;> cases hbefore
      · rw [Accounts.borrow_eq_none hco hborrow' hother] at hborrow
        cases hborrow
  cases hturn with
  | start => exact hold
  | own => exact hold
  | quiet hasks hdrop hstep => exact hkept hasks hstep
  | answer hasks hstep hresume => exact hkept hasks hstep

include hco in
omit [DecidableEq τ] in
theorem asleep_of_resume (hbehind : Behind board pc reader) {resp : Resp τ ℕ} {point : Point τ}
    (hresume : resume (pc reader) resp = some point) (hwaits : point.waits ≠ none) :
    board.awake reader = false := by
  cases hpc : pc reader with
  | loop queue current =>
      have hslot : (holds (pc reader)).slot = .fresh () queue := by
        rw [hpc]
        rfl
      exact hco.awake_of_fresh hslot
  | entered queue => exact hbehind.asleep (by rw [hpc]; simp [Point.waits])
  | waiting queue => exact hbehind.asleep (by rw [hpc]; simp [Point.waits])
  | idle =>
      rw [hpc] at hresume
      cases resp <;> cases hresume
  | waiter =>
      rw [hpc] at hresume
      cases resp <;> cases hresume
      exact absurd rfl hwaits
  | load =>
      rw [hpc] at hresume
      cases resp <;> cases hresume
      exact absurd rfl hwaits
  | guard =>
      have htries := hbehind.tries
      rw [hpc] at htries
      cases htries
  | readUnlock =>
      have htries := hbehind.tries
      rw [hpc] at htries
      cases htries
  | writeUnlock =>
      have htries := hbehind.tries
      rw [hpc] at htries
      cases htries

include hacc hco in
/-- A reader that is behind a waiting writer stays behind it. -/
theorem Behind.turn (hbehind : Behind board pc reader) (hwriter : writer ∈ writers)
    (howner : owner ≠ some writer)
    (hturn : (client : Client τ Unit _ _ Unit _ _).Turn board () pc task label board' () pc') :
    Behind board' pc' reader ∨
      pc' reader = .waiter .write ∧ task = reader ∧ ∃ call, label = .start call := by
  have hunpopped (other : τ) (hpops : (pc' other).pops = true) : reader ∉ readQueue board' :=
    hbehind.unpopped_of_turn hacc hco hwriter howner hturn hpops
  cases hturn with
  | @start call point hcode hstart =>
      by_cases htask : reader = task
      · subst htask
        simp only [client] at hstart
        unfold start at hstart
        split at hstart <;> cases hstart
        case h_1 =>
          refine Or.inl ⟨by simp [Point.tries], hbehind.unhanded, hbehind.unlisted, ?_, hunpopped⟩
          simp [Point.waits]
        case h_2 => exact Or.inr ⟨Function.update_self .., rfl, _, rfl⟩
        case h_3 _ queue hpc =>
          have htries := hbehind.tries
          rw [hpc] at htries
          cases htries
      · have hpoint : Function.update pc task point reader = pc reader :=
          Function.update_of_ne htask _ _
        refine Or.inl ⟨?_, hbehind.unhanded, hbehind.unlisted, ?_, hunpopped⟩
        · rw [hpoint]
          exact hbehind.tries
        · rw [hpoint]
          exact hbehind.asleep
  | own hcode => exact absurd hcode (code_ne_own _)
  | quiet hasks hdrop hstep =>
      obtain ⟨hhandle, hlist, hawake⟩ := hbehind.unpopped' hacc hco hasks hstep
      exact Or.inl ⟨hbehind.tries, hhandle, hlist, fun hwaits => hawake (hbehind.asleep hwaits),
        hunpopped⟩
  | @answer _ input resp _ point hasks hstep hresume =>
      obtain ⟨hhandle, hlist, hawake⟩ := hbehind.unpopped' hacc hco hasks hstep
      by_cases htask : reader = task
      · subst htask
        have hpoint : Function.update pc reader point reader = point :=
          Function.update_self ..
        rcases tries_of_resume hresume hbehind.tries with htries | ⟨rfl, current, hpc, htakes⟩ |
          ⟨hwoken, hpc⟩
        · refine Or.inl ⟨by rw [hpoint]; exact htries, hhandle, hlist, ?_, hunpopped⟩
          rw [hpoint]
          exact fun hwaits => hawake (asleep_of_resume hco hbehind hresume hwaits)
        · have hzero := writers_of_takes hpc htakes hasks hstep
          rw [hacc.writers_eq_empty hzero] at hwriter
          simp at hwriter
        · have hasleep := hbehind.asleep (by rw [hpc]; simp [Point.waits])
          rcases hwoken with rfl | rfl <;> cases hstep <;> simp_all
      · have hpoint : Function.update pc task point reader = pc reader :=
          Function.update_of_ne htask _ _
        refine Or.inl ⟨?_, hhandle, hlist, ?_, hunpopped⟩
        · rw [hpoint]
          exact hbehind.tries
        · rw [hpoint]
          exact fun hwaits => hawake (hbehind.asleep hwaits)

end Turns

/-! ## Readers before the next writer -/

/-- The downgrade has popped the readers and not yet counted them. -/
def Point.gathers : Point τ → Bool
  | .writeUnlock (.releaseReaders _) => true
  | .writeUnlock (.count _) => true
  | .writeUnlock (.countLoop _ _) => true
  | _ => false

/-- The downgrade of `task` is about to give the lock to the reader. -/
def Gathers (board : LockBoard τ) (pc : τ → Point τ) (task reader : τ) : Prop :=
  (pc task).pops = true ∧ reader ∈ readQueue board ∨
    (pc task).gathers = true ∧ reader ∈ board.store.list task

omit [DecidableEq τ] in
/-- Where the code of a downgrade goes on. -/
theorem gathers_of_resume {point point' : Point τ} {resp : Resp τ ℕ}
    (hresume : resume point resp = some point') (hpoint : point.gathers = true) :
    point'.gathers = true ∨ point'.counted = true := by
  cases point with
  | writeUnlock point =>
      cases point with
      | releaseReaders current =>
          cases resp <;> cases hresume
          exact Or.inl rfl
      | count current =>
          cases resp with
          | count value =>
              rw [countAt_eq hresume]
              exact Or.inl rfl
          | _ => cases hresume
      | countLoop count current =>
          cases resp with
          | success =>
              cases hresume
              exact Or.inr rfl
          | failure current =>
              rw [countAt_eq hresume]
              exact Or.inl rfl
          | _ => cases hresume
      | _ => cases hpoint
  | _ => cases hpoint

section Downgrade

variable {board board' : LockBoard τ} {pc pc' : τ → Point τ} {readers writers : Finset τ}
  {owner : Option τ} {task other reader : τ} {label : Label Call ω}
  (hacc : Accounts board pc readers writers owner)
  (hco : (client : Client τ Unit _ _ Unit _ _).Coherent holds board pc)

omit [DecidableEq τ] in
theorem Gathers.reads (hgathers : Gathers board pc task reader) : (pc task).reads = true := by
  rcases hgathers with ⟨hpc, -⟩ | ⟨hpc, -⟩
  all_goals
    cases hpoint : pc task with
    | writeUnlock point =>
        rw [hpoint] at hpc
        cases point <;> first | rfl | cases hpc
    | _ =>
        rw [hpoint] at hpc
        cases hpc

include hacc hco in
/-- A reader stays on `READ_QUEUE` until the downgrade pops it. -/
theorem readQueue_of_pops (hpops : (pc task).pops = true) (hmem : reader ∈ readQueue board)
    (hstage : board.stage reader ≠ .dropping) {input : Board.Input τ Unit Queue ℕ}
    {resp : Option (Resp τ ℕ)}
    (hasks : (client : Client τ Unit _ _ Unit _ _).Asks (pc other) input)
    (hstep : board.Step other input resp board') :
    reader ∈ readQueue board' ∨ other = task ∧ ∃ current,
      pc task = .writeUnlock (.popMany current) ∧
        input = .call (.popMany () WaiterList.usizeMax .read) := by
  have hqueued : reader ∈ board.store.queues () .read := hmem
  rcases hstep.queues_mem hqueued with hkept | rfl | ⟨count, rfl⟩ | ⟨rfl, hdropping⟩
  · exact Or.inl hkept
  · have hpc := point_of_popRead (hasks _ rfl)
    have hsnapshot := (hacc.points other).snapshot
    rw [hpc] at hsnapshot
    exact hsnapshot.elim
  · obtain ⟨current, hpc, -, rfl⟩ := point_of_popMany (hasks _ rfl)
    have hother : other = task := by
      by_contra hother
      have hnone := Accounts.borrow_eq_none hco (holds_of_pops hpops).1 hother
      rw [hpc] at hnone
      cases hnone
    rw [← hother]
    exact Or.inr ⟨rfl, current, hpc, rfl⟩
  · exact absurd hdropping hstage

include hco in
/-- A reader stays in the handle list until the downgrade counts it. -/
theorem list_of_gathers (hgathers : (pc task).gathers = true)
    (hmem : reader ∈ board.store.list task) {input : Board.Input τ Unit Queue ℕ}
    {resp : Option (Resp τ ℕ)}
    (hasks : (client : Client τ Unit _ _ Unit _ _).Asks (pc other) input)
    (hstep : board.Step other input resp board') : reader ∈ board'.store.list task := by
  rcases hstep.list_mem hmem with hkept | ⟨rfl, hcases⟩
  · exact hkept
  · exfalso
    rcases hcases with rfl | ⟨_, count, queue, rfl⟩ | ⟨futex, hactivity⟩
    · have hcode : code (pc task) = .call .next := hasks _ rfl
      cases hpc : pc task with
      | writeUnlock point =>
          rw [hpc] at hcode hgathers
          cases point <;> simp_all [Point.gathers, code, writeUnlockOp]
      | _ =>
          rw [hpc] at hgathers
          cases hgathers
    · obtain ⟨current, hpc, -, -⟩ := point_of_popMany (hasks _ rfl)
      rw [hpc] at hgathers
      cases hgathers
    · exact code_ne_requeue _ _ ((hco.fits task).requeueing futex hactivity)

include hco in
/-- Where a downgrade pops the readers. -/
theorem list_of_popMany {current : FutexAtom τ ℕ}
    (hpc : pc task = .writeUnlock (.popMany current)) (hmem : reader ∈ readQueue board)
    {input : Board.Input τ Unit Queue ℕ} {resp : Resp τ ℕ} {point : Point τ}
    (hasks : (client : Client τ Unit _ _ Unit _ _).Asks (pc task) input)
    (hstep : board.Step task input (some resp) board')
    (hresume : resume (pc task) resp = some point) :
    point.gathers = true ∧ reader ∈ board'.store.list task := by
  rw [hpc] at hresume
  have hunit : resp = .unit ∧ point = .writeUnlock (.releaseReaders current) := by
    cases resp <;> cases hresume
    exact ⟨rfl, rfl⟩
  obtain ⟨rfl, rfl⟩ := hunit
  refine ⟨rfl, ?_⟩
  cases input with
  | call op =>
      have hcode : code (pc task) = .call op := hasks op rfl
      rw [hpc] at hcode
      cases hcode
      cases hstep
      have hqueued : reader ∈ board.store.queues () .read := hmem
      simpa [Board.setStore, FutexStore.popMany, WaiterList.front] using hqueued
  | go =>
      cases hstep with
      | wakeDone hactivity =>
          have hcode : code (pc task) = .call .wake := (hco.fits task).waking hactivity
          rw [hpc] at hcode
          cases hcode
      | requeueDone futex _ hactivity =>
          exact absurd ((hco.fits task).requeueing futex hactivity) (code_ne_requeue _ _)
  | drop => cases hstep

include hacc hco in
/-- A downgrade gives the lock to the readers that it found. -/
theorem Gathers.answer (hgathers : Gathers board pc task reader)
    (hstage : board.stage reader ≠ .dropping) {input : Board.Input τ Unit Queue ℕ}
    {resp : Resp τ ℕ} {point : Point τ}
    (hasks : (client : Client τ Unit _ _ Unit _ _).Asks (pc task) input)
    (hstep : board.Step task input (some resp) board')
    (hresume : resume (pc task) resp = some point) :
    point.pops = true ∧ reader ∈ readQueue board' ∨
      (point.gathers = true ∨ point.counted = true) ∧ reader ∈ board'.store.list task := by
  rcases hgathers with ⟨hpops, hmem⟩ | ⟨hpoint, hmem⟩
  · rcases readQueue_of_pops hacc hco hpops hmem hstage hasks hstep with
      hkept | ⟨-, current, hpc, -⟩
    · cases hpc : pc task with
      | writeUnlock point =>
          cases point with
          | popWriter current =>
              rw [hpc] at hresume
              cases resp with
              | handle waiter =>
                  cases waiter <;> cases hresume
                  exact Or.inl ⟨rfl, hkept⟩
              | _ => cases hresume
          | popMany current =>
              obtain ⟨hpoint, hlist⟩ := list_of_popMany hco hpc hmem hasks hstep hresume
              exact Or.inr ⟨Or.inl hpoint, hlist⟩
          | _ =>
              rw [hpc] at hpops
              cases hpops
      | _ =>
          rw [hpc] at hpops
          cases hpops
    · obtain ⟨hpoint, hlist⟩ := list_of_popMany hco hpc hmem hasks hstep hresume
      exact Or.inr ⟨Or.inl hpoint, hlist⟩
  · exact Or.inr ⟨gathers_of_resume hresume hpoint, list_of_gathers hco hpoint hmem hasks hstep⟩

include hacc hco in
theorem Gathers.turn (hgathers : Gathers board pc task reader)
    (hstage : board.stage reader ≠ .dropping)
    (hturn : (client : Client τ Unit _ _ Unit _ _).Turn board () pc other label board' () pc') :
    Gathers board' pc' task reader ∨
      (pc' task).counted = true ∧ reader ∈ board'.store.list task := by
  have hstays {input : Board.Input τ Unit Queue ℕ} {resp : Option (Resp τ ℕ)}
      (hasks : (client : Client τ Unit _ _ Unit _ _).Asks (pc other) input)
      (hstep : board.Step other input resp board')
      (hpop : other = task → input ≠ .call (.popMany () WaiterList.usizeMax .read)) :
      Gathers board' pc task reader := by
    rcases hgathers with ⟨hpops, hmem⟩ | ⟨hpoint, hmem⟩
    · rcases readQueue_of_pops hacc hco hpops hmem hstage hasks hstep with
        hkept | ⟨heq, current, -, hinput⟩
      · exact Or.inl ⟨hpops, hkept⟩
      · exact absurd hinput (hpop heq)
    · exact Or.inr ⟨hpoint, list_of_gathers hco hpoint hmem hasks hstep⟩
  cases hturn with
  | @start call point hcode hstart =>
      have hne : task ≠ other := by
        rintro rfl
        have hreads := hgathers.reads
        cases hpc : pc task with
        | writeUnlock point =>
            rw [hpc] at hcode
            cases hcode
        | guard queue =>
            rcases hgathers with ⟨hpops, -⟩ | ⟨hpops, -⟩ <;> rw [hpc] at hpops <;> cases hpops
        | _ =>
            rw [hpc] at hreads hcode
            first | cases hreads | cases hcode
      have hpoint : Function.update pc other point task = pc task :=
        Function.update_of_ne hne _ _
      simp only [Gathers, hpoint]
      exact Or.inl hgathers
  | own hcode => exact absurd hcode (code_ne_own _)
  | quiet hasks hdrop hstep =>
      refine Or.inl (hstays hasks hstep ?_)
      rintro - rfl
      cases hstep
  | @answer _ input resp _ point hasks hstep hresume =>
      by_cases hne : task = other
      · subst hne
        have hpoint : Function.update pc task point task = point := Function.update_self ..
        simp only [Gathers, hpoint]
        rcases hgathers.answer hacc hco hstage hasks hstep hresume with
          hpops | ⟨hgathers' | hcounted, hmem⟩
        · exact Or.inl (Or.inl hpops)
        · exact Or.inl (Or.inr ⟨hgathers', hmem⟩)
        · exact Or.inr ⟨hcounted, hmem⟩
      · have hpoint : Function.update pc other point task = pc task :=
          Function.update_of_ne hne _ _
        simp only [Gathers, hpoint]
        exact Or.inl (hstays hasks hstep fun heq => absurd heq.symm hne)

end Downgrade

/-! ## The runs -/

instance [Fintype τ] (board : LockBoard τ) (pc : τ → Point τ) (task : τ) :
    Decidable (Granted board pc task) :=
  inferInstanceAs (Decidable ((∃ other, board.handle other = some task) ∨
    (∃ other, (pc other).counted = true ∧ task ∈ board.store.list other) ∨
      board.awake task = true))

instance [Fintype τ] (sys : HeapSystem τ Unit Queue ℕ ω Unit (Point τ)) (task : τ) :
    Decidable (Reading sys task) :=
  inferInstanceAs (Decidable ((sys.pc task).reads = true ∨
    (sys.pc task).waits = some .read ∧ Granted sys.lists.world.board sys.pc task))

variable [DecidableEq ω]

section Runs

variable [Fintype τ] {history : List (Mark τ Unit ℕ ω (Point τ) Call)}
  {sys sys' : HeapSystem τ Unit Queue ℕ ω Unit (Point τ)} {label : τ × Label Call ω}
  {marks : List (Mark τ Unit ℕ ω (Point τ) Call)} {task reader writer : τ}

theorem turn_of_next
    (htrace : (machine : Machine (HeapSystem τ Unit Queue ℕ ω Unit (Point τ)) _
      _).Trace history sys)
    (hsys : sys.lists.Verified client holds (fun board _ pc => Inv board pc))
    (hnext : machine.next sys label = some (sys', marks)) :
    (client : Client τ Unit _ _ Unit _ _).Turn sys.lists.world.board () sys.pc label.1 label.2
      sys'.lists.world.board () sys'.pc :=
  System.turn_of_verified typed invariant_of_few hsys htrace hnext

omit [Fintype τ] in
theorem behind_of_arrives {board : LockBoard τ} {pc : τ → Point τ}
    (hco : (client : Client τ Unit _ _ Unit _ _).Coherent holds board pc)
    (hreader : (pc reader).arrives = true) : Behind board pc reader := by
  have hpoint : (pc reader).tries = true ∧ (pc reader).waits = none ∧
      (holds (pc reader)).slot.Unused := by
    cases hpc : pc reader with
    | idle => exact ⟨rfl, rfl, trivial⟩
    | waiter queue =>
        rw [hpc] at hreader
        cases queue
        · exact ⟨rfl, rfl, trivial⟩
        · cases hreader
    | load queue =>
        rw [hpc] at hreader
        cases queue
        · exact ⟨rfl, rfl, trivial⟩
        · cases hreader
    | loop queue current =>
        rw [hpc] at hreader
        cases queue
        · exact ⟨rfl, rfl, trivial⟩
        · cases hreader
    | _ =>
        rw [hpc] at hreader
        cases hreader
  obtain ⟨htries, hwaits, hunused⟩ := hpoint
  obtain ⟨hunlisted, hunpopped⟩ := hco.unlisted_of_unused hunused
  exact ⟨htries, fun other hhandle => hunpopped (Or.inl ⟨other, hhandle⟩),
    fun other hmem => hunpopped (Or.inr ⟨other, hmem⟩), fun hsome => absurd hwaits hsome,
    fun other _ hmem => hunlisted (Or.inr ⟨(), .read, hmem⟩)⟩

omit [Fintype τ] [DecidableEq τ] [DecidableEq ω] in
theorem Behind.not_reads {board : LockBoard τ} {pc : τ → Point τ}
    (hbehind : Behind board pc reader) : ¬ Reads (Granted board pc reader) (pc reader) := by
  rintro (hreads | ⟨hwaits, hgranted⟩)
  · have htries := hbehind.tries
    cases hpc : pc reader <;> simp_all [Point.tries, Point.reads]
  · rcases hgranted with ⟨other, hhandle⟩ | ⟨other, -, hmem⟩ | hawake
    · exact hbehind.unhanded other hhandle
    · exact hbehind.unlisted other hmem
    · rw [hbehind.asleep (by rw [hwaits]; simp)] at hawake
      cases hawake

/-- A step leaves a reader behind a writer that waits. -/
theorem Behind.next (hbehind : Behind sys.lists.world.board sys.pc reader)
    (htrace : (machine : Machine (HeapSystem τ Unit Queue ℕ ω Unit (Point τ)) _
      _).Trace history sys)
    (hsys : sys.lists.Verified client holds (fun board _ pc => Inv board pc))
    (hqueued : writer ∈ queuedWriters sys.lists.world.board)
    (hnext : machine.next sys label = some (sys', marks)) :
    Behind sys'.lists.world.board sys'.pc reader ∨
      sys'.pc reader = .waiter .write ∧ label.1 = reader ∧ ∃ call, label.2 = .start call := by
  have hturn := turn_of_next htrace hsys hnext
  obtain ⟨readers, writers, owner, hacc⟩ := hsys.inv
  obtain ⟨hwriter, howner⟩ := (mem_queuedWriters hacc hsys.coherent).mp hqueued
  exact hbehind.turn hacc hsys.coherent hwriter howner hturn

/-- A step leaves a reader to the downgrade that found it, or counts it. -/
theorem Gathers.next (hgathers : Gathers sys.lists.world.board sys.pc task reader)
    (htrace : (machine : Machine (HeapSystem τ Unit Queue ℕ ω Unit (Point τ)) _
      _).Trace history sys)
    (hsys : sys.lists.Verified client holds (fun board _ pc => Inv board pc))
    (hsys' : sys'.lists.Verified client holds (fun board _ pc => Inv board pc))
    (hdrops : (sys.lists.world.board.stage reader).drops = false)
    (hnext : machine.next sys label = some (sys', marks)) :
    Gathers sys'.lists.world.board sys'.pc task reader ∨ Reading sys' reader := by
  have hturn := turn_of_next htrace hsys hnext
  obtain ⟨readers, writers, owner, hacc⟩ := hsys.inv
  have hstage : sys.lists.world.board.stage reader ≠ .dropping := by
    intro hstage
    rw [hstage] at hdrops
    cases hdrops
  rcases hgathers.turn hacc hsys.coherent hstage hturn with hgathers | ⟨hcounted, hmem⟩
  · exact Or.inl hgathers
  · obtain ⟨_, _, _, hacc'⟩ := hsys'.inv
    exact Or.inr (Or.inr ⟨hacc'.batches _ _ hmem, Or.inr (Or.inl ⟨task, hcounted, hmem⟩)⟩)

omit [DecidableEq ω] in
theorem KeepsBooks.not_writing (hbooks : KeepsBooks sys)
    (hreader : Gathers sys.lists.world.board sys.pc task reader ∨ Reading sys reader) :
    ¬ Writing sys writer := by
  intro hwriting
  rcases hreader with hgathers | hreading
  · exact (hbooks.alone writer hwriting task).1 (Or.inl hgathers.reads)
  · exact (hbooks.alone writer hwriting reader).1 hreading

variable (hcard : Fintype.card τ < 2 ^ 32)
include hcard

/-- As long as a writer waits, a reader that came later does not get the lock. -/
theorem not_reading_of_run {events : List (Mark τ Unit ℕ ω (Point τ) Call)}
    (hreach : (machine : Machine (HeapSystem τ Unit Queue ℕ ω Unit (Point τ)) _ _).Reachable sys)
    (hreader : (sys.pc reader).arrives = true)
    (hrun : ((machine.start sys).restrict fun sys _ =>
      writer ∈ queuedWriters sys.lists.world.board ∧
        sys.pc reader ≠ .waiter .write).Trace events sys') :
    ¬ Reading sys' reader := by
  have hco := (verified_of_reachable hcard hreach).coherent
  have hinit : Behind sys.lists.world.board sys.pc reader ∨ sys.pc reader = .waiter .write :=
    Or.inl (behind_of_arrives hco hreader)
  obtain ⟨-, hbehind⟩ := hreach.along
    (motive := fun sys => Behind sys.lists.world.board sys.pc reader ∨
      sys.pc reader = .waiter .write) hinit
    (fun before label after marks hbefore hmotive hallowed hnext => by
      obtain ⟨hqueued, hpc⟩ := hallowed
      obtain ⟨past, hpast⟩ := hbefore
      have hverified := verified_of_reachable hcard hpast.reachable
      exact ((hmotive.resolve_right hpc).next hpast hverified hqueued hnext).imp_right
        And.left) hrun
  rcases hbehind with hbehind | hpc
  · exact hbehind.not_reads
  · rintro (hreads | ⟨hwaits, -⟩)
    · rw [hpc] at hreads
      cases hreads
    · rw [hpc] at hwaits
      cases hwaits

/-- The readers that a downgrade finds get the lock before any writer. -/
theorem not_writing_of_downgrade {current : FutexAtom τ ℕ}
    {events : List (Mark τ Unit ℕ ω (Point τ) Call)}
    (hreach : (machine : Machine (HeapSystem τ Unit Queue ℕ ω Unit (Point τ)) _ _).Reachable sys)
    (hpc : sys.pc task = .writeUnlock (.popWriter current))
    (hqueued : reader ∈ readQueue sys.lists.world.board)
    (hrun : ((machine.start sys).restrict fun sys _ =>
      ¬ Reading sys reader ∧ (sys.lists.world.board.stage reader).drops = false).Trace events
        sys') : ¬ Writing sys' writer := by
  have hinit : Gathers sys.lists.world.board sys.pc task reader ∨ Reading sys reader :=
    Or.inl (Or.inl ⟨by rw [hpc]; rfl, hqueued⟩)
  obtain ⟨hreach', hgathers⟩ := hreach.along
    (motive := fun sys => Gathers sys.lists.world.board sys.pc task reader ∨ Reading sys reader)
    hinit
    (fun before label after marks hbefore hmotive hallowed hnext => by
      obtain ⟨hreading, hdrops⟩ := hallowed
      have hverified' := verified_of_reachable hcard (hbefore.step hnext)
      obtain ⟨past, hpast⟩ := hbefore
      have hverified := verified_of_reachable hcard hpast.reachable
      exact (hmotive.resolve_right hreading).next hpast hverified hverified' hdrops hnext)
    hrun
  exact (books_of_verified hreach' (verified_of_reachable hcard hreach')).not_writing hgathers

end Runs

/-- A reader comes after a writer that waits for another writer. -/
theorem not_reading_of_queued :
    ∃ sys : HeapSystem (Fin 3) Unit Queue ℕ Unit Unit (Point (Fin 3)),
      sys.pc 1 = .entered .write ∧ sys.pc 2 = .entered .read ∧ ¬ Reading sys 2 := by
  let call (task : Fin 3) : Fin 3 × Label Call Unit := (task, .call false ())
  let lock : Machine (HeapSystem (Fin 3) Unit Queue ℕ Unit Unit (Point (Fin 3)))
    (Fin 3 × Label Call Unit) (Mark (Fin 3) Unit ℕ Unit (Point (Fin 3)) Call) := machine
  have hrun : ((lock.run [(0, .start .write), call 0, call 0, call 0,
        (1, .start .write), call 1, call 1, call 1]).bind fun before =>
      (((lock.start before.1).restrict fun sys _ =>
        1 ∈ queuedWriters sys.lists.world.board ∧ sys.pc 2 ≠ .waiter .write).run
          [(2, .start .read), call 2, call 2, call 2]).map fun after =>
            (before.1.pc 2, after.1.pc 1, after.1.pc 2)) =
      some (.idle, .entered .write, .entered .read) := by decide +kernel
  obtain ⟨before, hbefore, hrest⟩ := Option.bind_eq_some_iff.mp hrun
  obtain ⟨after, hafter, hpoints⟩ := Option.map_eq_some_iff.mp hrest
  simp only [Prod.mk.injEq] at hpoints
  obtain ⟨hidle, hwriter, hreader⟩ := hpoints
  have harrives : (before.1.pc 2).arrives = true := by
    rw [hidle]
    rfl
  exact ⟨after.1, hwriter, hreader, not_reading_of_run (by decide)
    (lock.reachable_of_run _ hbefore) harrives ⟨_, hafter⟩⟩

/-- A writer comes while the last one hands the lock to a reader. -/
theorem not_writing_of_batch :
    ∃ sys : HeapSystem (Fin 3) Unit Queue ℕ Unit Unit (Point (Fin 3)),
      sys.pc 2 = .entered .write ∧ ¬ Writing sys 2 := by
  let call (task : Fin 3) : Fin 3 × Label Call Unit := (task, .call false ())
  let lock : Machine (HeapSystem (Fin 3) Unit Queue ℕ Unit Unit (Point (Fin 3)))
    (Fin 3 × Label Call Unit) (Mark (Fin 3) Unit ℕ Unit (Point (Fin 3)) Call) := machine
  have hrun : ((lock.run ([(0, .start .write), call 0, call 0, call 0,
        (1, .start .read), call 1, call 1, call 1, call 1, (0, .start .dropGuard)] ++
          List.replicate 5 (call 0))).bind fun before =>
      (((lock.start before.1).restrict fun sys _ =>
        ¬ Reading sys 1 ∧ (sys.lists.world.board.stage 1).drops = false).run
          [(2, .start .write), call 2, call 2, call 2, call 0, call 0]).map fun after =>
            (before.1.pc 0, decide (1 ∈ readQueue before.1.lists.world.board),
              after.1.pc 2)) =
      some (.writeUnlock (.popWriter ⟨2 ^ 32, some 1⟩), true, .entered .write) := by
    decide +kernel
  obtain ⟨before, hbefore, hrest⟩ := Option.bind_eq_some_iff.mp hrun
  obtain ⟨after, hafter, hpoints⟩ := Option.map_eq_some_iff.mp hrest
  simp only [Prod.mk.injEq, decide_eq_true_eq] at hpoints
  obtain ⟨hpc, hqueued, hwriter⟩ := hpoints
  exact ⟨after.1, hwriter, not_writing_of_downgrade (by decide)
    (lock.reachable_of_run _ hbefore) hpc hqueued ⟨_, hafter⟩⟩

/-- A step of a run serves the writers in the order of their arrival, and
overtakes nobody. -/
structure Serves [Fintype τ] (history : List (Mark τ Unit ℕ ω (Point τ) Call))
    (sys : HeapSystem τ Unit Queue ℕ ω Unit (Point τ))
    (marks : List (Mark τ Unit ℕ ω (Point τ) Call)) : Prop where
  /-- A popped writer began to wait before all other writers that wait. -/
  first : ∀ task point writer, .responded task point (.handle (some writer)) ∈ marks →
    code point = .call (.pop () .write) →
      writer ∈ sys.world.lists.store.contents () .write ∧
        ∀ other ∈ sys.world.lists.store.contents () .write, other ≠ writer →
          [writer, other].Sublist (lastArrivals (arrivals history))
  /-- `write` takes the lock at once only where nobody has it or waits for it. -/
  barging : ∀ task current, .responded task (.loop .write current) .success ∈ marks →
    Takes .write current →
      (FutexStore.top sys.world.store () = none ∧
        FutexStore.isEmpty sys.world.store () Queue.write = true ∧
          FutexStore.isEmpty sys.world.store () Queue.read = true) ∧
        ∀ other, ¬ Reading sys other ∧ ¬ Writing sys other

/-- `write` takes the lock only where the word is free. -/
theorem word_of_takes {board board' : LockBoard τ} {point : Point τ} {current : FutexAtom τ ℕ}
    {task : τ} {input : Board.Input τ Unit Queue ℕ} (hpoint : point = .loop .write current)
    (htakes : Takes .write current)
    (hasks : (client : Client τ Unit _ _ Unit _ _).Asks point input)
    (hstep : board.Step task input (some .success) board') : word board = ⟨0, 0⟩ := by
  obtain ⟨new, hcode⟩ := step_success hasks hstep
  subst hpoint
  simp only [code, lockOp, if_pos htakes, Code.call.injEq, Op.cmpxchgWeak.injEq, true_and,
    reduceCtorEq, or_false] at hcode
  have hzero : atomOf current = ⟨0, 0⟩ := htakes
  rw [hcode.1] at hzero
  exact hzero

theorem resp_of_pop {board board' : LockBoard τ} {task : τ} {queue : Queue} {resp : Resp τ ℕ}
    (hstep : board.Step task (.call (.pop () queue)) (some resp) board') :
    resp = .handle (board.store.queues () queue).head? := by
  cases hstep
  rfl

/-- The answer of a pop is the head of the queue. -/
theorem head_of_pop {board board' : LockBoard τ} {point : Point τ} {task waiter : τ}
    {input : Board.Input τ Unit Queue ℕ} (hcode : code point = .call (.pop () .write))
    (hasks : (client : Client τ Unit _ _ Unit _ _).Asks point input)
    (hstep : board.Step task input (some (.handle (some waiter))) board') :
    (board.store.queues () .write).head? = some waiter := by
  cases input with
  | call op =>
      have hop : code point = .call op := hasks op rfl
      rw [hcode] at hop
      cases hop
      exact (Resp.handle.inj (resp_of_pop hstep)).symm
  | go => cases hstep
  | drop => cases hstep

theorem serves_of_verified [Fintype τ] {history : List (Mark τ Unit ℕ ω (Point τ) Call)}
    {sys : HeapSystem τ Unit Queue ℕ ω Unit (Point τ)} {label : τ × Label Call ω}
    {result : HeapSystem τ Unit Queue ℕ ω Unit (Point τ) ×
      List (Mark τ Unit ℕ ω (Point τ) Call)}
    (htrace : machine.Trace history sys)
    (hsys : sys.lists.Verified client holds (fun board _ pc => Inv board pc))
    (hline : System.InLine history sys.lists) (hnext : machine.next sys label = some result) :
    Serves history sys result.2 := by
  obtain ⟨hnext', -⟩ := System.machine_next.mp (System.next_lists htrace hnext)
  have hbooks := books_of_verified htrace.reachable hsys
  constructor
  · intro task point writer hmark hcode
    obtain ⟨-, rfl, input, board', hasks, hstep⟩ :=
      hsys.responded typed invariant_of_few hnext' hmark
    exact hline.first (head_of_pop hcode hasks hstep)
  · intro task current hmark htakes
    obtain ⟨-, hpc, input, board', hasks, hstep⟩ :=
      hsys.responded typed invariant_of_few hnext' hmark
    have hword : word sys.lists.world.board = ⟨0, 0⟩ :=
      word_of_takes hpc.symm htakes hasks hstep
    obtain ⟨readers, writers, owner, hacc⟩ := hsys.inv
    have hreaders : readers = ∅ := hacc.readers_eq_empty_of_zero (by rw [hword])
    have hwriters : writers = ∅ := hacc.writers_eq_empty (by rw [hword])
    have hzero : (Atom.decode (sys.world.atom ())).writers = 0 := congrArg Atom.writers hword
    obtain ⟨htop, hwrite, hread⟩ := hbooks.empty hzero
    refine ⟨⟨htop, hwrite, hread (hacc.not_pops hreaders)⟩, fun other => ⟨fun hreading => ?_,
      fun hwriting => ?_⟩⟩
    · have hmem : other ∈ readers := (hacc.roles other).reads.mp hreading
      rw [hreaders] at hmem
      simp at hmem
    · have hmem := ((owner_iff hacc).mpr hwriting).1
      rw [hwriters] at hmem
      simp at hmem

/-- In every run the reader-writer lock serves its writers in order and has no
barging. -/
theorem serves_of_trace [Fintype τ] (hcard : Fintype.card τ < 2 ^ 32)
    {history : List (Mark τ Unit ℕ ω (Point τ) Call)}
    {sys : HeapSystem τ Unit Queue ℕ ω Unit (Point τ)} {label : τ × Label Call ω}
    {result : HeapSystem τ Unit Queue ℕ ω Unit (Point τ) ×
      List (Mark τ Unit ℕ ω (Point τ) Call)}
    (htrace : machine.Trace history sys) (hnext : machine.next sys label = some result) :
    Serves history sys result.2 := by
  obtain ⟨hlists, -⟩ := System.lists_of_trace htrace
  exact serves_of_verified htrace (verified_of_reachable hcard htrace.reachable)
    (System.inLine_of_trace typed (invariant hcard) inv_initial code_ne_requeue hlists) hnext

/-- Two writers wait for a reader, and the first one is popped. -/
theorem serves_of_pop :
    ∃ (history : List (Mark (Fin 3) Unit ℕ Unit (Point (Fin 3)) Call))
      (sys : HeapSystem (Fin 3) Unit Queue ℕ Unit Unit (Point (Fin 3)))
      (marks : List (Mark (Fin 3) Unit ℕ Unit (Point (Fin 3)) Call)),
      .responded 0 (.readUnlock (.pop 2)) (.handle (some 1)) ∈ marks ∧
        Serves history sys marks := by
  let call (task : Fin 3) : Fin 3 × Label Call Unit := (task, .call false ())
  let lock : Machine (HeapSystem (Fin 3) Unit Queue ℕ Unit Unit (Point (Fin 3)))
    (Fin 3 × Label Call Unit) (Mark (Fin 3) Unit ℕ Unit (Point (Fin 3)) Call) := machine
  have hrun : ((lock.run ([(0, .start .read), call 0, call 0, call 0,
        (1, .start .write), call 1, call 1, call 1,
        (2, .start .write), call 2, call 2, call 2, (0, .start .dropGuard)] ++
          List.replicate 4 (call 0))).bind fun before =>
      (lock.next before.1 (call 0)).map fun after =>
        decide ((0, .readUnlock (.pop 2), .handle (some 1)) ∈
          after.2.filterMap Mark.response)) =
      some true := by decide +kernel
  obtain ⟨before, hbefore, hrest⟩ := Option.bind_eq_some_iff.mp hrun
  obtain ⟨after, hafter, hmark⟩ := Option.map_eq_some_iff.mp hrest
  exact ⟨before.2, before.1, after.2, Mark.mem_of_response (of_decide_eq_true hmark),
    serves_of_trace (by decide) ⟨_, hbefore⟩ hafter⟩

end RwLock

end AsyncMutex

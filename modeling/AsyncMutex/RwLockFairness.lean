import AsyncMutex.RwLockBounds
import AsyncMutex.RwLockOrder

/-!
# The order in which the reader-writer lock is granted

While both halves of the word suffice, waiting writers get the lock in the
order of their arrival, a reader that comes later waits for them, and nobody
overtakes the readers of a downgrade.  With `2 ^ 32` writers the count of the
writers is zero again, and another one overtakes those that wait.
-/

namespace AsyncMutex

namespace RwLock

variable {τ ω : Type} [Fintype τ] [DecidableEq τ] [DecidableEq ω]
  {history marks : List (Mark τ Unit ℕ ω (Point τ) Call)} {label : τ × Label Call ω}
  {sys sys' : HeapSystem τ Unit Queue ℕ ω Unit (Point τ)} {reader writer : τ}

/-- The present call of `reader` first loaded the word after the last time that
`writer` began to wait. -/
def Late (history : List (Mark τ Unit ℕ ω (Point τ) Call)) (reader writer : τ) : Prop :=
  ∃ before current after,
    history = before ++ .responded reader (.load .read) (.atom current) :: after ∧
      .event (.entered writer ()) ∉ after ∧ ∀ call, .started reader call ∉ after

/-- `sys'` comes after `sys`, and meanwhile `reader` was not granted the lock
and was not dropped. -/
def Unserved (reader : τ) (sys sys' : HeapSystem τ Unit Queue ℕ ω Unit (Point τ)) : Prop :=
  ∃ events, ((machine.start sys).restrict fun sys _ => ¬ Reading sys reader ∧
    (sys.lists.world.board.stage reader).drops = false).TraceWithin Bounded events sys'

/-- The order of the grants, after a run. -/
structure Orderly (history : List (Mark τ Unit ℕ ω (Point τ) Call))
    (sys : HeapSystem τ Unit Queue ℕ ω Unit (Point τ)) : Prop where
  serves : ∀ label result, machine.next sys label = some result → Serves history sys result.2
  behind : ∀ reader writer, Late history reader writer →
    writer ∈ queuedWriters sys.lists.world.board → ¬ Reading sys reader
  /-- The readers that a downgrade finds are before every writer. -/
  downgrade : ∀ task current reader sys', sys.pc task = .writeUnlock (.popWriter current) →
    reader ∈ readQueue sys.lists.world.board → Unserved reader sys sys' →
      ∀ writer, ¬ Writing sys' writer

/-! ## Readers behind a writer -/

omit [Fintype τ] [DecidableEq τ] [DecidableEq ω] in
/-- Whoever is late was late before a step, or loads the word in it. -/
theorem Late.of_append (hlate : Late (history ++ marks) reader writer) :
    (∃ current, .responded reader (.load .read) (.atom current) ∈ marks) ∨
      Late history reader writer ∧ .event (.entered writer ()) ∉ marks ∧
        ∀ call, .started reader call ∉ marks := by
  obtain ⟨before, current, after, heq, hentered, hstarted⟩ := hlate
  rcases List.append_eq_append_iff.mp heq with ⟨middle, hbefore, hmarks⟩ | ⟨middle, hhistory, hrest⟩
  · refine Or.inl ⟨current, ?_⟩
    rw [hmarks]
    simp
  · cases middle with
    | nil =>
        refine Or.inl ⟨current, ?_⟩
        rw [List.nil_append] at hrest
        rw [← hrest]
        simp
    | cons mark middle =>
        rw [List.cons_append, List.cons.injEq] at hrest
        obtain ⟨rfl, rfl⟩ := hrest
        refine Or.inr ⟨⟨before, current, middle, hhistory, ?_, ?_⟩, ?_, ?_⟩
        · exact fun hmem => hentered (List.mem_append_left _ hmem)
        · exact fun call hmem => hstarted call (List.mem_append_left _ hmem)
        · exact fun hmem => hentered (List.mem_append_right _ hmem)
        · exact fun call hmem => hstarted call (List.mem_append_right _ hmem)

omit [Fintype τ] [DecidableEq τ] [DecidableEq ω] in
theorem entered_of_arrival (hmem : writer ∈ arrivals marks) :
    .event (.entered writer ()) ∈ marks := by
  obtain ⟨mark, hmark, harrival⟩ := List.mem_filterMap.mp hmem
  cases mark with
  | event event =>
      cases event with
      | entered task futex =>
          cases harrival
          exact hmark
      | _ => cases harrival
  | _ => cases harrival

omit [Fintype τ] [DecidableEq τ] in
theorem mem_queuedWriters_iff {board : LockBoard τ} :
    writer ∈ queuedWriters board ↔ writer ∈ board.store.contents () .write := by
  rw [queuedWriters, ListStore.contents, List.mem_append, List.mem_append, Or.comm]
  rfl

theorem arrives_of_load (hnext : sys.lists.next client label.1 label.2 = some (sys'.lists, marks))
    (hsafe : sys'.panicked = false) {current : FutexAtom τ ℕ}
    (hmark : .responded reader (.load .read) (.atom current) ∈ marks) :
    (sys'.pc reader).arrives = true := by
  obtain ⟨rfl, -, hpanicked | ⟨point, hgo, hpc⟩⟩ := System.responded_of_next hnext hmark
  · exact absurd hpanicked (by rw [show sys'.lists.panicked = false from hsafe]; simp)
  · have hpoint : sys'.pc label.1 = point := by
      rw [show sys'.pc = _ from hpc, Function.update_self]
    rw [hpoint]
    cases hgo
    rfl

/-- A reader that loaded the word after a writer began to wait stays behind it. -/
theorem behind_of_late
    (htrace : (machine : Machine (HeapSystem τ Unit Queue ℕ ω Unit (Point τ)) _
      _).TraceWithin Bounded history sys)
    (hlate : Late history reader writer)
    (hqueued : writer ∈ queuedWriters sys.lists.world.board) :
    Behind sys.lists.world.board sys.pc reader := by
  induction htrace with
  | init =>
      obtain ⟨before, current, after, heq, -⟩ := hlate
      simp at heq
  | @step history marks before after label hbefore hnext hafter ih =>
      have hsys := verified_of_traceWithin hbefore
      have hsys' := verified_of_traceWithin (hbefore.step hnext hafter)
      obtain ⟨hlists, -⟩ := System.machine_next.mp (System.next_lists hbefore.trace hnext)
      rcases hlate.of_append with ⟨current, hmark⟩ | ⟨hlate, hentered, hstarted⟩
      · exact behind_of_arrives hsys'.coherent (arrives_of_load hlists hsys'.safe hmark)
      · have hwaited : writer ∈ queuedWriters before.lists.world.board := by
          rw [mem_queuedWriters_iff] at hqueued ⊢
          exact (hsys.contents_next code_ne_requeue hlists hqueued).resolve_right
            fun harrival => hentered (entered_of_arrival harrival)
        rcases (ih hlate hwaited).next hbefore.trace hsys hwaited hnext with
          hbehind | ⟨-, rfl, call, hlabel⟩
        · exact hbehind
        · rw [hlabel] at hlists
          exact absurd (System.started_of_next hlists) (hstarted call)

/-! ## The runs -/

/-- While both halves of the word suffice, the lock keeps its order. -/
theorem orderly_of_traceWithin
    (htrace : (machine : Machine (HeapSystem τ Unit Queue ℕ ω Unit (Point τ)) _
      _).TraceWithin Bounded history sys) : Orderly history sys where
  serves label result hnext :=
    serves_of_verified htrace.trace (verified_of_traceWithin htrace)
      (System.inLine_of_traceWithin (fun _ _ => verified_of_traceWithin) code_ne_requeue htrace)
      hnext
  behind reader writer hlate hqueued := (behind_of_late htrace hlate hqueued).not_reads
  downgrade task current reader sys' hpc hqueued hrun writer := by
    obtain ⟨events, hrun⟩ := hrun
    have hinit : Gathers sys.lists.world.board sys.pc task reader ∨ Reading sys reader :=
      Or.inl (Or.inl ⟨by rw [hpc]; rfl, hqueued⟩)
    obtain ⟨⟨history', htrace'⟩, hreader⟩ := htrace.along
      (motive := fun sys => Gathers sys.lists.world.board sys.pc task reader ∨
        Reading sys reader) hinit
      (fun past before label after marks hbefore hmotive hallowed hnext hafter => by
        obtain ⟨hreading, hdrops⟩ := hallowed
        exact (hmotive.resolve_right hreading).next hbefore.trace (verified_of_traceWithin hbefore)
          (verified_of_traceWithin (hbefore.step hnext hafter)) hdrops hnext) hrun
    exact (books_of_verified htrace'.trace.reachable
      (verified_of_traceWithin htrace')).not_writing hreader

/-- A reader comes after two writers that wait, and a downgrade finds another
reader. -/
theorem orderly_of_waits :
    (∃ (history : List (Mark (Fin 4) Unit ℕ Unit (Point (Fin 4)) Call))
        (sys : HeapSystem (Fin 4) Unit Queue ℕ Unit Unit (Point (Fin 4))),
        Late history 3 1 ∧ queuedWriters sys.lists.world.board = [1, 2] ∧
          Orderly history sys) ∧
      ∃ (history : List (Mark (Fin 4) Unit ℕ Unit (Point (Fin 4)) Call))
        (sys : HeapSystem (Fin 4) Unit Queue ℕ Unit Unit (Point (Fin 4)))
        (current : FutexAtom (Fin 4) ℕ), sys.pc 0 = .writeUnlock (.popWriter current) ∧
          readQueue sys.lists.world.board = [1] ∧ Orderly history sys := by
  let call (task : Fin 4) : Fin 4 × Label Call Unit := (task, .call false ())
  let lock : Machine (HeapSystem (Fin 4) Unit Queue ℕ Unit Unit (Point (Fin 4)))
    (Fin 4 × Label Call Unit) (Mark (Fin 4) Unit ℕ Unit (Point (Fin 4)) Call) := machine
  have hwithin {history : List (Mark (Fin 4) Unit ℕ Unit (Point (Fin 4)) Call)}
      {sys : HeapSystem (Fin 4) Unit Queue ℕ Unit Unit (Point (Fin 4))}
      (htrace : lock.Trace history sys) : lock.TraceWithin Bounded history sys :=
    htrace.within fun sys => (uncrowded_of_card (by decide) sys).bounded
  constructor
  · have hrun : ((lock.run [(0, .start .read), call 0, call 0, call 0,
        (1, .start .write), call 1, call 1, call 1, (2, .start .write), call 2, call 2, call 2,
          (3, .start .read), call 3]).bind fun before =>
        (lock.next before.1 (call 3)).map fun after =>
          (after.2.length, decide ((3, .load .read, .atom ⟨2 ^ 33 + 1, some 2⟩) ∈
            after.2.filterMap Mark.response), queuedWriters after.1.lists.world.board)) =
        some (1, true, [1, 2]) := by decide +kernel
    obtain ⟨before, hbefore, hrest⟩ := Option.bind_eq_some_iff.mp hrun
    obtain ⟨after, hafter, hgood⟩ := Option.map_eq_some_iff.mp hrest
    simp only [Prod.mk.injEq] at hgood
    obtain ⟨hone, hresponse, hqueued⟩ := hgood
    have htrace : lock.Trace before.2 before.1 := ⟨_, hbefore⟩
    have hmark : .responded 3 (.load .read) (.atom ⟨2 ^ 33 + 1, some 2⟩) ∈ after.2 :=
      Mark.mem_of_response (of_decide_eq_true hresponse)
    obtain ⟨mark, hmarks⟩ := List.length_eq_one_iff.mp hone
    rw [hmarks, List.mem_singleton] at hmark
    refine ⟨before.2 ++ after.2, after.1, ⟨before.2, ⟨2 ^ 33 + 1, some 2⟩, [], ?_, ?_, ?_⟩,
      hqueued, orderly_of_traceWithin (hwithin (htrace.step hafter))⟩
    · rw [hmarks, hmark]
    · exact List.not_mem_nil
    · exact fun _ => List.not_mem_nil
  · have hrun : (lock.run ([(0, .start .write), call 0, call 0, call 0,
        (1, .start .read), call 1, call 1, call 1, call 1, (0, .start .dropGuard)] ++
          List.replicate 5 (call 0))).map (fun result =>
            (result.1.pc 0, readQueue result.1.lists.world.board)) =
        some (.writeUnlock (.popWriter ⟨2 ^ 32, some 1⟩), [1]) := by decide +kernel
    obtain ⟨⟨sys, history⟩, hresult, hgood⟩ := Option.map_eq_some_iff.mp hrun
    simp only [Prod.mk.injEq] at hgood
    exact ⟨history, sys, _, hgood.1, hgood.2, orderly_of_traceWithin (hwithin ⟨_, hresult⟩)⟩

/-! ## Too many writers -/

variable {task : τ} {queue : Queue}

/-- It waits for a lock that is not free. -/
theorem Arrived.waits (harrived : Arrived sys task queue sys') (waker : ω)
    (hbusy : sys.world.busy task = .none) (hwaits : ¬ Takes queue (sys.world.word ())) :
    ∃ (world : World (HeapStore τ Unit Queue) τ Unit ℕ ω)
      (marks : List (Mark τ Unit ℕ ω (Point τ) Call)),
      machine.next sys' (task, .call false waker) =
          some ({ sys'.setPc task (.entered queue) with world := world }, marks) ∧
        world.word () =
          ⟨(awaited queue (atomOf (sys.world.word ()))).encode, some task⟩ ∧
          world.phase = Function.update sys'.world.phase task .entered ∧
            world.busy = sys'.world.busy := by
  have hpc : sys'.pc task = .loop queue (sys.world.word ()) := by
    rw [harrived.pc, Function.update_self]
  have hphase : sys'.world.phase task = .enter := by
    rw [harrived.phase, Function.update_self]
  have hrunning : sys'.world.Running task :=
    ⟨by rw [harrived.busy, hbusy], Or.inr (Or.inl hphase)⟩
  obtain ⟨outcome, hstep, hsuccess, hword, hphases, hbusies⟩ : ∃ outcome,
      sys'.world.step task (.call (lockOp queue (sys.world.word ())) false waker) =
          some outcome ∧
        outcome.resp = some .success ∧ outcome.world.word () =
          ⟨(awaited queue (atomOf (sys.world.word ()))).encode, some task⟩ ∧
          outcome.world.phase = Function.update sys'.world.phase task .entered ∧
            outcome.world.busy = sys'.world.busy := by
    rw [lockOp, if_neg hwaits, World.step, if_pos hrunning]
    simp only [World.call, World.pollEnter, hphase, ne_eq, not_true_eq_false, if_false,
      harrived.waker]
    refine ⟨_, if_pos ⟨harrived.word, trivial⟩, rfl, ?_, rfl, rfl⟩
    simp [World.word, FutexStore.top, FutexStore.push]
  have hgo : client.goOn (sys'.pc task) (.success : Resp τ ℕ) = some (.entered queue) := by
    simp only [hpc, Client.goOn, client, resume, if_neg hwaits]
  exact ⟨_, _, System.next_of_answer harrived.safe (by rw [hpc]; rfl) hstep hsuccess hgo rfl,
    hword, hphases, hbusies⟩

/-- The tasks of `writers` have the lock for writing or wait for it, and nobody
else did anything. -/
structure Crowded (writers : Finset τ) (sys : HeapSystem τ Unit Queue ℕ ω Unit (Point τ)) :
    Prop where
  started : Started writers sys
  word : Atom.decode (sys.world.atom ()) = ⟨0, writers.card % 2 ^ 32⟩
  inbox : 1 < writers.card → (sys.world.word ()).inbox.isSome = true

/-- Up to `2 ^ 32` writers come one after the other. -/
theorem Crowded.insert {writers : Finset τ} (hcrowded : Crowded writers sys) (waker : ω)
    (hrest : task ∉ writers) (hcard : writers.card < 2 ^ 32) :
    ∃ sys' : HeapSystem τ Unit Queue ℕ ω Unit (Point τ), Crowded (insert task writers) sys' := by
  obtain ⟨sys', harrived⟩ := hcrowded.started.arrives .write waker rfl hrest
  have hatom : atomOf (sys.world.word ()) = ⟨0, writers.card⟩ := by
    rw [← Nat.mod_eq_of_lt hcard]
    exact hcrowded.word
  by_cases htakes : Takes .write (sys.world.word ())
  · have hzero : writers.card = 0 := by
      have hfree : atomOf (sys.world.word ()) = ⟨0, 0⟩ := htakes
      rw [hatom] at hfree
      exact congrArg Atom.writers hfree
    refine ⟨_, hcrowded.started.takes harrived waker htakes, ?_, fun hmany => ?_⟩
    · simp [taken, hzero, Finset.card_insert_of_notMem hrest, Atom.decode_encode]
    · rw [Finset.card_insert_of_notMem hrest, hzero] at hmany
      exact absurd hmany (lt_irrefl 1)
  · obtain ⟨world, marks, hnext, hword, hphase, hbusy⟩ :=
      harrived.waits waker (hcrowded.started.busy task) htakes
    refine ⟨_, hcrowded.started.insert (harrived.reachable.step hnext) harrived.safe
      (fun other hne => ?_) (fun other => ?_), ?_, fun _ => ?_⟩
    · simp only [System.setPc, hphase, harrived.pc, harrived.phase, Function.update_of_ne hne,
        and_self]
    · exact (congrFun hbusy other).trans (harrived.busy other)
    · rw [show world.atom () = _ from congrArg FutexAtom.atom hword, awaited, hatom,
        Atom.decode_encode, Finset.card_insert_of_notMem hrest, Nat.zero_mod]
    · rw [hword]
      rfl

theorem exists_crowded (waker : ω) {writers : Finset τ} (hcard : writers.card ≤ 2 ^ 32) :
    ∃ sys : HeapSystem τ Unit Queue ℕ ω Unit (Point τ), Crowded writers sys := by
  induction writers using Finset.induction_on with
  | empty =>
      refine ⟨_, .initial, ?_, by simp⟩
      simp [machine, System.machine, World.initial, Atom.decode]
  | insert task writers hrest ih =>
      rw [Finset.card_insert_of_notMem hrest] at hcard
      obtain ⟨sys, hcrowded⟩ := ih (Nat.le_of_succ_le hcard)
      exact hcrowded.insert waker hrest hcard

/-- After `2 ^ 32` writers another one overtakes those that wait. -/
theorem Crowded.overtakes {writers : Finset τ} (hcrowded : Crowded writers sys) (waker : ω)
    (hrest : task ∉ writers) (hcard : writers.card = 2 ^ 32) :
    ∃ (history : List (Mark τ Unit ℕ ω (Point τ) Call))
      (sys' : HeapSystem τ Unit Queue ℕ ω Unit (Point τ)),
      (machine : Machine (HeapSystem τ Unit Queue ℕ ω Unit (Point τ)) _ _).Trace history sys' ∧
        sys'.pc task = .loop .write (sys'.world.word ()) ∧
          Takes .write (sys'.world.word ()) ∧ (sys'.world.word ()).inbox.isSome = true ∧
            ¬ Orderly history sys' := by
  obtain ⟨sys', harrived⟩ := hcrowded.started.arrives .write waker rfl hrest
  have htakes : Takes .write (sys.world.word ()) := by
    simp [Takes, atomOf, World.word, hcrowded.word, hcard]
  have hinbox : (sys.world.word ()).inbox.isSome = true :=
    hcrowded.inbox (by rw [hcard]; decide)
  have hnext := harrived.takes waker (hcrowded.started.busy task) htakes
  obtain ⟨history, htrace⟩ := harrived.reachable
  refine ⟨history, sys', htrace, ?_, ?_, ?_, fun horderly => ?_⟩
  · rw [harrived.word, harrived.pc, Function.update_self]
  · rw [harrived.word]
    exact htakes
  · rw [harrived.word]
    exact hinbox
  · obtain ⟨⟨htop, -⟩, -⟩ := (horderly.serves _ _ hnext).barging task (sys.world.word ())
      (List.mem_singleton_self _) htakes
    have hnone : (sys'.world.word ()).inbox = none := htop
    rw [← harrived.word, hnone] at hinbox
    cases hinbox

/-- All tasks but the first call `write()`, and then the first one is about to
take its fast path, although others wait. -/
theorem disorderly_of_writers :
    ∃ (history : List (Mark (Fin (2 ^ 32 + 1)) Unit ℕ Unit (Point (Fin (2 ^ 32 + 1))) Call))
      (sys : HeapSystem (Fin (2 ^ 32 + 1)) Unit Queue ℕ Unit Unit (Point (Fin (2 ^ 32 + 1)))),
      (machine : Machine (HeapSystem (Fin (2 ^ 32 + 1)) Unit Queue ℕ Unit Unit _) _ _).Trace
          history sys ∧ sys.pc 0 = .loop .write (sys.world.word ()) ∧
        Takes .write (sys.world.word ()) ∧ (sys.world.word ()).inbox.isSome = true ∧
          ¬ Orderly history sys := by
  obtain ⟨sys, hcrowded⟩ := exists_crowded () (Nat.le_of_eq card_others)
  exact hcrowded.overtakes () (Finset.notMem_erase _ _) card_others

end RwLock

end AsyncMutex

import AsyncMutex.RwLock

/-!
# How far the word of the reader-writer lock counts

Each of the two counts has half of the word, and no operation checks that its
half suffices.  As long as both do, the word is exact and the lock excludes.
With `2 ^ 32` readers the count of the readers is zero again, and a writer gets
the lock.
-/

namespace AsyncMutex

namespace RwLock

variable {τ ω : Type} [Fintype τ] [DecidableEq τ] [DecidableEq ω]
  {history : List (Mark τ Unit ℕ ω (Point τ) Call)}
  {sys : HeapSystem τ Unit Queue ℕ ω Unit (Point τ)}

/-- Fewer than `2 ^ 32` tasks read, write or wait. -/
def Uncrowded (sys : HeapSystem τ Unit Queue ℕ ω Unit (Point τ)) : Prop :=
  {task | sys.pc task ≠ .idle}.ncard < 2 ^ 32

/-- Fewer than `2 ^ 32` tasks have the lock for reading or were granted it, and
fewer than `2 ^ 32` have it for writing or wait for that. -/
structure Bounded (sys : HeapSystem τ Unit Queue ℕ ω Unit (Point τ)) : Prop where
  readers : {task | Reading sys task}.ncard < 2 ^ 32
  writers : {task | (sys.pc task).writes = true}.ncard < 2 ^ 32

/-- The word counts the readers and the writers, and the lock excludes. -/
structure Exact (sys : HeapSystem τ Unit Queue ℕ ω Unit (Point τ)) : Prop where
  readers : (Atom.decode (sys.world.atom ())).readers = {task | Reading sys task}.ncard
  writers : (Atom.decode (sys.world.atom ())).writers =
    {task | (sys.pc task).writes = true}.ncard
  exclusive : ∀ reader writer, sys.pc reader = .guard .read → sys.pc writer ≠ .guard .write

omit [DecidableEq τ] in
theorem card_le_ncard {tasks : Finset τ} {set : Set τ} (hmem : ∀ task ∈ tasks, task ∈ set) :
    tasks.card ≤ set.ncard := by
  rw [← Set.ncard_coe_finset]
  exact Set.ncard_le_ncard hmem (Set.toFinite set)

omit [DecidableEq τ] [DecidableEq ω] in
theorem Bounded.few (hbounded : Bounded sys) : Few sys.lists.world.board sys.pc where
  readers _ hreads := Nat.lt_of_le_of_lt (card_le_ncard hreads) hbounded.readers
  writers _ hwrites := Nat.lt_of_le_of_lt (card_le_ncard hwrites) hbounded.writers

omit [DecidableEq τ] [DecidableEq ω] in
theorem Uncrowded.bounded (huncrowded : Uncrowded sys) : Bounded sys := by
  have hle (set : Set τ) (hset : ∀ task ∈ set, sys.pc task ≠ .idle) : set.ncard < 2 ^ 32 :=
    Nat.lt_of_le_of_lt (Set.ncard_le_ncard hset (Set.toFinite _)) huncrowded
  refine ⟨hle _ fun task hreads hidle => ?_, hle _ fun task hwrites hidle => ?_⟩
  · rcases hreads with h | ⟨h, -⟩ <;> rw [hidle] at h <;> cases h
  · have hwriter : (sys.pc task).writes = true := hwrites
    rw [hidle] at hwriter
    cases hwriter

omit [DecidableEq τ] [DecidableEq ω] in
theorem uncrowded_of_card (hcard : Fintype.card τ < 2 ^ 32)
    (sys : HeapSystem τ Unit Queue ℕ ω Unit (Point τ)) : Uncrowded sys := by
  rw [← Nat.card_eq_fintype_card] at hcard
  exact Nat.lt_of_le_of_lt (Set.ncard_le_card _) hcard

theorem verified_of_traceWithin
    (htrace : (machine : Machine (HeapSystem τ Unit Queue ℕ ω Unit (Point τ)) _
      _).TraceWithin Bounded history sys) :
    sys.lists.Verified client holds (fun board _ pc => Inv board pc) :=
  System.Verified.of_traceWithin typed invariant_of_few inv_initial
    (fun _ hbounded => hbounded.few) htrace

/-- In every run with fewer than `2 ^ 32` readers and writers at once the lock
excludes, keeps its books and strands nobody. -/
theorem books_of_traceWithin
    (htrace : (machine : Machine (HeapSystem τ Unit Queue ℕ ω Unit (Point τ)) _
      _).TraceWithin Uncrowded history sys) : KeepsBooks sys :=
  books_of_verified htrace.trace.reachable
    (verified_of_traceWithin (htrace.imp fun _ _ hbefore => hbefore.region.bounded))

/-- While the halves of the word suffice, the word is exact. -/
theorem exact_of_traceWithin
    (htrace : (machine : Machine (HeapSystem τ Unit Queue ℕ ω Unit (Point τ)) _
      _).TraceWithin Bounded history sys) : Exact sys := by
  have hverified := verified_of_traceWithin htrace
  have hbooks := books_of_verified htrace.trace.reachable hverified
  obtain ⟨readers, writers, owner, hacc⟩ := hverified.inv
  refine ⟨hbooks.readers, ?_, fun reader writer hreader hwriter => ?_⟩
  · have hset : {task | (sys.pc task).writes = true} = (writers : Set τ) := by
      ext task
      exact (hacc.roles task).writes
    rw [hset, Set.ncard_coe_finset]
    exact hacc.books.writerCount
  · have hsame := hbooks.exclusive writer reader .read hwriter hreader
    rw [hsame, hreader] at hwriter
    cases hwriter

/-- A run keeps the word exact in all its states if and only if the halves of the
word suffice in all its states. -/
theorem exact_iff_bounded :
    (machine : Machine (HeapSystem τ Unit Queue ℕ ω Unit (Point τ)) _ _).TraceWithin Exact
        history sys ↔
      (machine : Machine (HeapSystem τ Unit Queue ℕ ω Unit (Point τ)) _ _).TraceWithin Bounded
        history sys := by
  constructor
  · intro htrace
    refine htrace.imp fun _ _ hbefore => ⟨?_, ?_⟩
    · rw [← hbefore.region.readers]
      exact Atom.readers_decode_lt _
    · rw [← hbefore.region.writers]
      exact Atom.writers_decode_lt _
  · exact fun htrace => htrace.imp fun _ _ hbefore => exact_of_traceWithin hbefore

/-- A writer waits, and behind it a reader. -/
theorem books_of_waits :
    ∃ sys : HeapSystem (Fin 3) Unit Queue ℕ Unit Unit (Point (Fin 3)),
      sys.pc 0 = .guard .read ∧ sys.pc 1 = .waiting .write ∧ sys.pc 2 = .waiting .read ∧
        KeepsBooks sys := by
  let call (task : Fin 3) : Fin 3 × Label Call Unit := (task, .call false ())
  let lock : Machine (HeapSystem (Fin 3) Unit Queue ℕ Unit Unit (Point (Fin 3)))
    (Fin 3 × Label Call Unit) (Mark (Fin 3) Unit ℕ Unit (Point (Fin 3)) Call) := machine
  have hrun : (lock.run ([(0, .start .read), call 0, call 0, call 0,
      (1, .start .write), call 1, call 1, call 1, call 1,
        (2, .start .read), call 2, call 2, call 2, call 2])).map
          (fun result => (result.1.pc 0, result.1.pc 1, result.1.pc 2)) =
      some (.guard .read, .waiting .write, .waiting .read) := by decide +kernel
  obtain ⟨⟨sys, history⟩, hresult, hpoints⟩ := Option.map_eq_some_iff.mp hrun
  simp only [Prod.mk.injEq] at hpoints
  obtain ⟨hreader, hwriter, hlast⟩ := hpoints
  have htrace : lock.Trace history sys := ⟨_, hresult⟩
  exact ⟨sys, hreader, hwriter, hlast,
    books_of_traceWithin (htrace.within (uncrowded_of_card (by decide)))⟩

/-! ## Too many readers -/

/-- The task made its waiter and loaded the word, which is as it was. -/
structure Arrived (sys : HeapSystem τ Unit Queue ℕ ω Unit (Point τ)) (task : τ) (queue : Queue)
    (sys' : HeapSystem τ Unit Queue ℕ ω Unit (Point τ)) : Prop where
  reachable : (machine : Machine (HeapSystem τ Unit Queue ℕ ω Unit (Point τ)) _
    _).Reachable sys'
  safe : sys'.panicked = false
  pc : sys'.pc = Function.update sys.pc task (.loop queue (sys.world.word ()))
  phase : sys'.world.phase = Function.update sys.world.phase task .enter
  waker : sys'.world.waker task = .none
  busy : ∀ other, sys'.world.busy other = sys.world.busy other
  word : sys'.world.word () = sys.world.word ()

/-- A task that has done nothing arrives at the loop of `read` or `write`. -/
theorem exists_arrived (queue : Queue) (call : Call) (waker : ω) {task : τ}
    (hreach : (machine : Machine (HeapSystem τ Unit Queue ℕ ω Unit (Point τ)) _
      _).Reachable sys)
    (hcall : start (.idle : Point τ) call = some (.waiter queue))
    (hsafe : sys.panicked = false) (hpc : sys.pc task = .idle)
    (hphase : sys.world.phase task = .idle) (hbusy : sys.world.busy task = .none) :
    ∃ sys' : HeapSystem τ Unit Queue ℕ ω Unit (Point τ), Arrived sys task queue sys' := by
  have hrunning : sys.world.Running task := ⟨hbusy, Or.inl hphase⟩
  obtain ⟨made, hmade⟩ : ∃ made,
      sys.world.step task (.call (.waiter () queue) false waker) = some made ∧
        made.resp = some .unit ∧ made.world.word () = sys.world.word () ∧
          made.world.phase = Function.update sys.world.phase task .enter ∧
            made.world.waker task = .none ∧ made.world.busy = sys.world.busy :=
    ⟨_, (if_pos hrunning).trans (if_pos (Or.inl hphase)), rfl, rfl, rfl,
      Function.update_self .., rfl⟩
  obtain ⟨hstep, hunit, hword, hphases, hwaker, hbusies⟩ := hmade
  have hload : made.world.step task (.call (.load ()) false waker) =
      some { world := made.world, resp := some (.atom (sys.world.word ())) } := by
    rw [← hword]
    refine if_pos ⟨by rw [hbusies]; exact hbusy, Or.inr (Or.inl ?_)⟩
    rw [hphases, Function.update_self]
  have hstarted := hreach.step (System.next_of_start hsafe
    (by rw [hpc]; rfl) (by rw [hpc]; exact hcall) rfl)
  have hmaking := hstarted.step (System.next_of_answer hsafe
    (by simp [System.setPc, client, code]) hstep hunit
      (by simp [System.setPc, Client.goOn, client, resume]; rfl) rfl)
  have hloading := hmaking.step (System.next_of_answer hsafe
    (by simp [System.setPc, client, code]) hload rfl
      (by simp [System.setPc, Client.goOn, client, resume]; rfl) rfl)
  refine ⟨_, hloading, hsafe, ?_, hphases, hwaker, fun other => congrFun hbusies other, hword⟩
  simp [System.setPc]

namespace Arrived

variable {sys' : HeapSystem τ Unit Queue ℕ ω Unit (Point τ)} {task : τ} {queue : Queue}

/-- It takes a free lock. -/
theorem takes (harrived : Arrived sys task queue sys') (waker : ω)
    (hbusy : sys.world.busy task = .none) (htakes : Takes queue (sys.world.word ())) :
    machine.next sys' (task, .call false waker) = some
      ({ sys'.setPc task (.guard queue) with
          world := sys'.world.setAtom () (taken queue (atomOf (sys.world.word ()))).encode },
        [.responded task (.loop queue (sys.world.word ())) .success]) := by
  have hpc : sys'.pc task = .loop queue (sys.world.word ()) := by
    rw [harrived.pc, Function.update_self]
  have hrunning : sys'.world.Running task := by
    refine ⟨by rw [harrived.busy, hbusy], Or.inr (Or.inl ?_)⟩
    rw [harrived.phase, Function.update_self]
  have hstep : sys'.world.step task (.call (lockOp queue (sys.world.word ())) false waker) =
      some { world := sys'.world.setAtom () (taken queue (atomOf (sys.world.word ()))).encode,
             resp := some .success } := by
    rw [lockOp, if_pos htakes]
    exact (if_pos hrunning).trans (if_pos ⟨harrived.word, rfl⟩)
  have hgo : client.goOn (sys'.pc task) (.success : Resp τ ℕ) = some (.guard queue) := by
    simp only [hpc, Client.goOn, client, resume, if_pos htakes]
  rw [← hpc]
  exact System.next_of_answer harrived.safe (by rw [hpc]; rfl) hstep rfl hgo rfl

end Arrived

/-- Only the tasks of `active` did anything. -/
structure Started (active : Finset τ) (sys : HeapSystem τ Unit Queue ℕ ω Unit (Point τ)) :
    Prop where
  reachable : (machine : Machine (HeapSystem τ Unit Queue ℕ ω Unit (Point τ)) _
    _).Reachable sys
  safe : sys.panicked = false
  rest : ∀ task ∉ active, sys.pc task = .idle ∧ sys.world.phase task = .idle
  busy : ∀ task, sys.world.busy task = .none

namespace Started

variable {active : Finset τ} {sys' : HeapSystem τ Unit Queue ℕ ω Unit (Point τ)} {task : τ}
  {queue : Queue}

theorem initial :
    Started ∅ (machine : Machine (HeapSystem τ Unit Queue ℕ ω Unit (Point τ)) _ _).init where
  reachable := machine.reachable_init
  safe := rfl
  rest _ _ := ⟨rfl, rfl⟩
  busy _ := rfl

theorem arrives (hstarted : Started active sys) (call : Call) (waker : ω)
    (hcall : start (.idle : Point τ) call = some (.waiter queue)) (hrest : task ∉ active) :
    ∃ sys' : HeapSystem τ Unit Queue ℕ ω Unit (Point τ), Arrived sys task queue sys' := by
  obtain ⟨hpc, hphase⟩ := hstarted.rest task hrest
  exact exists_arrived queue call waker hstarted.reachable hcall hstarted.safe hpc hphase
    (hstarted.busy task)

/-- A step of one more task. -/
theorem insert (hstarted : Started active sys)
    (hreach : (machine : Machine (HeapSystem τ Unit Queue ℕ ω Unit (Point τ)) _
      _).Reachable sys') (hsafe : sys'.panicked = false)
    (hother : ∀ other, other ≠ task → sys'.pc other = sys.pc other ∧
      sys'.world.phase other = sys.world.phase other)
    (hbusy : ∀ other, sys'.world.busy other = sys.world.busy other) :
    Started (insert task active) sys' where
  reachable := hreach
  safe := hsafe
  rest other hrest := by
    rw [Finset.mem_insert, not_or] at hrest
    rw [(hother other hrest.1).1, (hother other hrest.1).2]
    exact hstarted.rest other hrest.2
  busy other := (hbusy other).trans (hstarted.busy other)

/-- One more task gets the free lock at once. -/
theorem takes (hstarted : Started active sys) (harrived : Arrived sys task queue sys')
    (waker : ω) (htakes : Takes queue (sys.world.word ())) :
    Started (Insert.insert task active) { sys'.setPc task (.guard queue) with
      world := sys'.world.setAtom () (taken queue (atomOf (sys.world.word ()))).encode } := by
  refine hstarted.insert (harrived.reachable.step (harrived.takes waker (hstarted.busy task)
    htakes)) harrived.safe (fun other hne => ?_) harrived.busy
  simp only [System.setPc, World.setAtom_phase, harrived.pc, harrived.phase,
    Function.update_of_ne hne, and_self]

end Started

/-- The tasks of `guards` have a `ReadGuard`, and nobody else did anything. -/
structure Leaked (guards : Finset τ) (sys : HeapSystem τ Unit Queue ℕ ω Unit (Point τ)) :
    Prop where
  started : Started guards sys
  reads : ∀ task ∈ guards, sys.pc task = .guard .read
  word : Atom.decode (sys.world.atom ()) = ⟨guards.card % 2 ^ 32, 0⟩

/-- Without writers one more task gets a `ReadGuard`. -/
theorem Leaked.insert {guards : Finset τ} {task : τ} (hleaked : Leaked guards sys) (waker : ω)
    (hrest : task ∉ guards) :
    ∃ sys' : HeapSystem τ Unit Queue ℕ ω Unit (Point τ), Leaked (insert task guards) sys' := by
  obtain ⟨sys', harrived⟩ := hleaked.started.arrives .read waker rfl hrest
  have htakes : Takes .read (sys.world.word ()) := by
    simp [Takes, atomOf, World.word, hleaked.word]
  refine ⟨_, hleaked.started.takes harrived waker htakes, fun other hmem => ?_, ?_⟩
  · rcases Finset.mem_insert.mp hmem with rfl | hmem
    · exact Function.update_self ..
    · have hne : other ≠ task := fun heq => hrest (heq ▸ hmem)
      simp only [System.setPc, harrived.pc, Function.update_of_ne hne]
      exact hleaked.reads other hmem
  · simp only [World.setAtom_atom, Function.update_self, taken, atomOf, World.word,
      hleaked.word, Atom.decode_encode, Finset.card_insert_of_notMem hrest, Nat.mod_add_mod,
      Nat.zero_mod]

theorem exists_leaked (waker : ω) (guards : Finset τ) :
    ∃ sys : HeapSystem τ Unit Queue ℕ ω Unit (Point τ), Leaked guards sys := by
  induction guards using Finset.induction_on with
  | empty =>
      refine ⟨_, .initial, by simp, ?_⟩
      simp [machine, System.machine, World.initial, Atom.decode]
  | insert task guards hrest ih =>
      obtain ⟨sys, hleaked⟩ := ih
      exact hleaked.insert waker hrest

/-- After `2 ^ 32` readers `write()` takes its fast path. -/
theorem Leaked.write {guards : Finset τ} {task : τ} (hleaked : Leaked guards sys) (waker : ω)
    (hrest : task ∉ guards) (hcard : guards.card = 2 ^ 32) :
    ∃ sys' : HeapSystem τ Unit Queue ℕ ω Unit (Point τ),
      (machine : Machine (HeapSystem τ Unit Queue ℕ ω Unit (Point τ)) _ _).Reachable sys' ∧
        (∀ reader ∈ guards, sys'.pc reader = .guard .read) ∧ sys'.pc task = .guard .write := by
  obtain ⟨sys', harrived⟩ := hleaked.started.arrives .write waker rfl hrest
  have htakes : Takes .write (sys.world.word ()) := by
    simp [Takes, atomOf, World.word, hleaked.word, hcard]
  refine ⟨_, (hleaked.started.takes harrived waker htakes).reachable,
    fun reader hmem => ?_, Function.update_self ..⟩
  have hne : reader ≠ task := fun heq => hrest (heq ▸ hmem)
  simp only [System.setPc, harrived.pc, Function.update_of_ne hne]
  exact hleaked.reads reader hmem

theorem card_others : (Finset.univ.erase (0 : Fin (2 ^ 32 + 1))).card = 2 ^ 32 := by
  rw [Finset.card_erase_of_mem (Finset.mem_univ _), Finset.card_univ, Fintype.card_fin,
    Nat.add_sub_cancel]

/-- All tasks but the first take the lock for reading and keep it, and then the
first takes it for writing. -/
theorem inexact_of_leaks :
    ∃ sys : HeapSystem (Fin (2 ^ 32 + 1)) Unit Queue ℕ Unit Unit (Point (Fin (2 ^ 32 + 1))),
      (machine : Machine (HeapSystem (Fin (2 ^ 32 + 1)) Unit Queue ℕ Unit Unit _) _
        _).Reachable sys ∧ (∀ reader, reader ≠ 0 → sys.pc reader = .guard .read) ∧
          sys.pc 0 = .guard .write ∧ ¬ Exact sys := by
  obtain ⟨sys, hleaked⟩ := exists_leaked () (Finset.univ.erase (0 : Fin (2 ^ 32 + 1)))
  obtain ⟨sys', hreach, hreaders, hwriter⟩ := hleaked.write () (Finset.notMem_erase _ _) card_others
  have hreader (reader : Fin (2 ^ 32 + 1)) (hne : reader ≠ 0) :
      sys'.pc reader = .guard .read :=
    hreaders reader (Finset.mem_erase.mpr ⟨hne, Finset.mem_univ _⟩)
  have hlast : Fin.last (2 ^ 32) ≠ 0 := Fin.last_pos.ne'
  exact ⟨sys', hreach, hreader, hwriter, fun hexact =>
    hexact.exclusive _ 0 (hreader _ hlast) hwriter⟩

end RwLock

end AsyncMutex

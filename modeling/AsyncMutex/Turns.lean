import AsyncMutex.Verified

/-!
# The turns of a verified client

The steps of a system speak of wakers, locks and queues.  For a verified client
each of them is one of four turns on the board, and none of them panics.  What
holds along some runs only is proved by cases on the turns.
-/

namespace AsyncMutex

/-- What holds in a state of a run, and is kept by the allowed steps, holds as
long as only such steps are taken. -/
theorem Machine.Reachable.along {σ ℓ ε : Type*} {machine : Machine σ ℓ ε}
    {allowed : σ → ℓ → Prop} [∀ state label, Decidable (allowed state label)]
    {motive : σ → Prop} {state next : σ} {events : List ε} (hreach : machine.Reachable state)
    (hinit : motive state)
    (hstep : ∀ before label after events, machine.Reachable before → motive before →
      allowed before label → machine.next before label = some (after, events) → motive after)
    (hrun : ((machine.start state).restrict allowed).Trace events next) :
    machine.Reachable next ∧ motive next := by
  refine hrun.invariant (motive := fun _ next => machine.Reachable next ∧ motive next)
    ⟨hreach, hinit⟩ ?_
  rintro past before label after marks - ⟨hbefore, hmotive⟩ hnext
  obtain ⟨hallowed, hnext⟩ := Machine.restrict_next.mp hnext
  exact ⟨hbefore.step hnext, hstep before label after marks hbefore hmotive hallowed hnext⟩

theorem Machine.TraceWithin.along {σ ℓ ε : Type*} {machine : Machine σ ℓ ε}
    {region : σ → Prop} {allowed : σ → ℓ → Prop} [∀ state label, Decidable (allowed state label)]
    {motive : σ → Prop} {history events : List ε} {state next : σ}
    (htrace : machine.TraceWithin region history state) (hinit : motive state)
    (hstep : ∀ past before label after events, machine.TraceWithin region past before →
      motive before → allowed before label → machine.next before label = some (after, events) →
        region after → motive after)
    (hrun : ((machine.start state).restrict allowed).TraceWithin region events next) :
    (∃ history, machine.TraceWithin region history next) ∧ motive next := by
  induction hrun with
  | init => exact ⟨⟨history, htrace⟩, hinit⟩
  | @step past marks before after label _ hnext hafter ih =>
      obtain ⟨⟨past, hbefore⟩, hmotive⟩ := ih
      obtain ⟨hallowed, hnext⟩ := Machine.restrict_next.mp hnext
      exact ⟨⟨_, hbefore.step hnext hafter⟩,
        hstep past before label after marks hbefore hmotive hallowed hnext hafter⟩

variable {τ φ κ α ω M L C : Type} [DecidableEq τ] [DecidableEq φ]
  [DecidableEq κ] [DecidableEq ω]

/-- One turn of `task`, with the board, the memory and the program points after
it. -/
inductive Client.Turn (client : Client τ φ κ α M L C) (board : Board τ φ κ α) (memory : M)
    (pc : τ → L) (task : τ) : Label C ω → Board τ φ κ α → M → (τ → L) → Prop
  | start {call : C} {pc' : L} (hcode : client.code (pc task) = .rest)
      (hstart : client.start (pc task) call = some pc') :
      Turn client board memory pc task (.start call) board memory (Function.update pc task pc')
  | own {memory' : M} {pc' : L} (hcode : client.code (pc task) = .own)
      (hact : client.act task memory (pc task) = some (memory', pc')) :
      Turn client board memory pc task .own board memory' (Function.update pc task pc')
  /-- Nothing that the code waits for. -/
  | quiet {label : Label C ω} {input : Board.Input τ φ κ α} {board' : Board τ φ κ α}
      (hasks : client.Asks (pc task) input) (hdrop : input = .drop → label = .drop)
      (hstep : board.Step task input none board') :
      Turn client board memory pc task label board' memory pc
  | answer {label : Label C ω} {input : Board.Input τ φ κ α} {resp : Resp τ α}
      {board' : Board τ φ κ α} {pc' : L} (hasks : client.Asks (pc task) input)
      (hstep : board.Step task input (some resp) board')
      (hresume : client.resume (pc task) resp = some pc') :
      Turn client board memory pc task label board' memory (Function.update pc task pc')

namespace System

variable {client : Client τ φ κ α M L C} {holds : L → Holding φ κ} {usage : Usage τ L}
  {inv : Board τ φ κ α → M → (τ → L) → Prop} {queue : κ} {atom : φ → α}
  {futex : φ} {memory : M} {sys : ListSystem τ φ κ α ω M L}
  {within : Board τ φ κ α → (τ → L) → Prop}

namespace Verified

omit [DecidableEq τ] [DecidableEq φ] [DecidableEq κ] [DecidableEq ω] in
/-- The only label that asks for a drop is the drop. -/
theorem drop_of_request {pc : L} {label : Label C ω} {act : Act τ φ κ α ω}
    (hrequest : client.request pc label = some act)
    (hinput : World.Inv.input act = .drop) : label = .drop := by
  cases label with
  | drop => rfl
  | call =>
      simp only [Client.request] at hrequest
      split at hrequest <;> cases hrequest
      cases hinput
  | poll =>
      cases hrequest
      cases hinput
  | step =>
      cases hrequest
      cases hinput
  | start => cases hrequest
  | own => cases hrequest

theorem turn [DecidableEq α] (hsys : sys.Verified client holds inv) (htyped : client.Typed holds)
    (hinv : client.Invariant holds usage inv within) {task : τ} {label : Label C ω}
    {result : ListSystem τ φ κ α ω M L × List (Mark τ φ α ω L C)}
    (hnext : sys.next client task label = some result) :
    client.Turn sys.world.board sys.memory sys.pc task label result.1.world.board
      result.1.memory result.1.pc := by
  obtain ⟨-, hstep⟩ := next_spec hnext
  cases hstep with
  | start hcode hstart => exact .start hcode hstart
  | act hcode hact => exact .own hcode hact
  | fail hcode hact =>
      obtain ⟨memory', pc', hact', -⟩ :=
        hinv.own _ _ _ task hsys.coherent hsys.inv hcode
      rw [hact] at hact'
      cases hact'
  | @move _ act outcome hrequest hstep =>
      obtain ⟨hcalls, hboard⟩ := hsys.step_board htyped hinv hrequest hstep
      have hasks : client.Asks (sys.pc task) (World.Inv.input act) :=
        fun op hop => (hcalls op hop).1
      cases hresp : outcome.resp with
      | none =>
          rw [hresp] at hboard
          simp only [settle, hresp]
          exact .quiet hasks (drop_of_request hrequest) hboard
      | some resp =>
          rw [hresp] at hboard
          obtain ⟨pc', hgo, -⟩ := hsys.answer htyped hinv hrequest hstep hresp
          simp only [settle, hresp, hgo]
          refine .answer hasks hboard ?_
          obtain ⟨hpanic, hmisuse⟩ := hboard.resp_ne
          cases resp <;> first | exact hgo | exact absurd rfl hpanic | exact absurd rfl hmisuse

/-- The mark of a response comes from the program point of the task at hand. -/
theorem responded [DecidableEq α] (hsys : sys.Verified client holds inv)
    (htyped : client.Typed holds)
    (hinv : client.Invariant holds usage inv within) {task : τ} {label : Label C ω}
    {result : ListSystem τ φ κ α ω M L × List (Mark τ φ α ω L C)}
    (hnext : sys.next client task label = some result) {actor : τ} {point : L}
    {resp : Resp τ α} (hmark : .responded actor point resp ∈ result.2) :
    actor = task ∧ point = sys.pc task ∧ ∃ input board',
      client.Asks (sys.pc task) input ∧
        sys.world.board.Step task input (some resp) board' := by
  obtain ⟨-, hstep⟩ := next_spec hnext
  cases hstep with
  | start => simp at hmark
  | act => simp at hmark
  | fail => simp at hmark
  | @move _ act outcome hrequest hstep =>
      obtain ⟨hcalls, hboard⟩ := hsys.step_board htyped hinv hrequest hstep
      cases hresp : outcome.resp with
      | none => simp [settle, hresp] at hmark
      | some resp' =>
          obtain ⟨pc', hgo, -⟩ := hsys.answer htyped hinv hrequest hstep hresp
          simp only [settle, hresp, hgo, List.mem_append, List.mem_map, reduceCtorEq,
            and_false, exists_false, List.mem_singleton, Mark.responded.injEq, false_or]
            at hmark
          obtain ⟨rfl, rfl, rfl⟩ := hmark
          rw [hresp] at hboard
          exact ⟨rfl, rfl, _, _, fun op hop => (hcalls op hop).1, hboard⟩

end Verified

/-- The pointers of the source take the same turns. -/
theorem turn_of_verified [DecidableEq α] [Fintype τ] (htyped : client.Typed holds)
    (hinv : client.Invariant holds usage inv within) {history : List (Mark τ φ α ω L C)}
    {sys : HeapSystem τ φ κ α ω M L} {label : τ × Label C ω}
    {result : HeapSystem τ φ κ α ω M L × List (Mark τ φ α ω L C)}
    (hsys : sys.lists.Verified client holds inv)
    (htrace : (machine client usage (HeapStore.empty queue) atom futex memory :
      Machine (HeapSystem τ φ κ α ω M L) _ _).Trace history sys)
    (hnext : (machine client usage (HeapStore.empty queue) atom futex memory :
      Machine (HeapSystem τ φ κ α ω M L) _ _).next sys label = some result) :
    client.Turn sys.lists.world.board sys.memory sys.pc label.1 label.2
      result.1.lists.world.board result.1.memory result.1.pc := by
  obtain ⟨hnext', -⟩ := machine_next.mp (next_lists htrace hnext)
  exact hsys.turn htyped hinv hnext'

end System

/-! ## Where a step takes the waiters -/

namespace Board.Step

variable {board board' : Board τ φ κ α} {task waiter other : τ}
  {input : Board.Input τ φ κ α} {resp : Option (Resp τ α)}

theorem mem_list (hstep : board.Step task input resp board')
    (hmem : waiter ∈ board'.store.list other) :
    waiter ∈ board.store.list other ∨ other = task ∧ ∃ futex count queue,
      input = .call (.popMany futex count queue) ∧
        waiter ∈ WaiterList.front count (board.store.queues futex queue) := by
  cases hstep with
  | popMany futex count queue =>
      simp only [Board.setStore, FutexStore.popMany, Function.update_apply] at hmem
      split at hmem
      case isTrue heq => exact Or.inr ⟨heq, futex, count, queue, rfl, hmem⟩
      case isFalse => exact Or.inl hmem
  | next =>
      simp only [Board.setHandle, Board.setStore, FutexStore.listPop, Function.update_apply]
        at hmem
      split at hmem
      case isTrue heq =>
        rw [heq]
        exact Or.inl (List.mem_of_mem_tail hmem)
      case isFalse => exact Or.inl hmem
  | requeueDone futex =>
      simp only [Board.setActivity, Board.setStore, FutexStore.listPush,
        Function.update_apply] at hmem
      split at hmem
      case isTrue => simp at hmem
      case isFalse => exact Or.inl hmem
  | _ => exact Or.inl hmem

theorem handle_eq (hstep : board.Step task input resp board')
    (hhandle : board'.handle other = some waiter) :
    board.handle other = some waiter ∨ other = task ∧
      ((∃ futex queue, input = .call (.pop futex queue) ∧
          (board.store.queues futex queue).head? = some waiter) ∨
        input = .call .next ∧ (board.store.list task).head? = some waiter) := by
  cases hstep with
  | pop futex queue =>
      simp only [Board.setHandle, Board.setStore, Function.update_apply] at hhandle
      split at hhandle
      case isTrue heq => exact Or.inr ⟨heq, Or.inl ⟨futex, queue, rfl, hhandle⟩⟩
      case isFalse => exact Or.inl hhandle
  | next =>
      simp only [Board.setHandle, Board.setStore, Function.update_apply] at hhandle
      split at hhandle
      case isTrue heq => exact Or.inr ⟨heq, Or.inr ⟨rfl, hhandle⟩⟩
      case isFalse => exact Or.inl hhandle
  | wake =>
      simp only [Board.setActivity, Board.setHandle, Board.setAwake, Function.update_apply]
        at hhandle
      split at hhandle
      case isTrue => cases hhandle
      case isFalse => exact Or.inl hhandle
  | _ => exact Or.inl hhandle

theorem awake_eq (hstep : board.Step task input resp board')
    (hawake : board'.awake waiter = true) :
    board.awake waiter = true ∨ board.handle task = some waiter := by
  cases hstep with
  | waiter futex queue =>
      simp only [Board.setAwake, Function.update_apply] at hawake
      split at hawake
      case isTrue => cases hawake
      case isFalse => exact Or.inl hawake
  | wake other hhandle =>
      simp only [Board.setActivity, Board.setHandle, Board.setAwake, Function.update_apply]
        at hawake
      split at hawake
      case isTrue heq =>
        rw [heq]
        exact Or.inr hhandle
      case isFalse => exact Or.inl hawake
  | cancelWoken =>
      simp only [Board.setAwake, Board.setStage, Function.update_apply] at hawake
      split at hawake
      case isTrue => cases hawake
      case isFalse => exact Or.inl hawake
  | _ => exact Or.inl hawake

/-- Only a flip adds to a queue. -/
theorem mem_queues (hstep : board.Step task input resp board') {futex : φ} {queue : κ}
    (hmem : waiter ∈ board'.store.queues futex queue) :
    waiter ∈ board.store.queues futex queue ∨ board.readers futex = ∅ ∨
      resp = some .success ∧
        ∃ new, input = .call (.cmpxchgEnqueueWeak futex (board.word futex) new) := by
  cases hstep with
  | cmpxchgEnqueueWeak target new =>
      by_cases htarget : futex = target
      · subst htarget
        exact Or.inr (Or.inr ⟨rfl, new, rfl⟩)
      · simp only [Board.setAtom, Board.flip, Board.setStore,
          Function.update_of_ne htarget] at hmem
        exact Or.inl hmem
  | dropFlip target hstage hreaders =>
      by_cases htarget : futex = target
      · subst htarget
        exact Or.inr (Or.inl hreaders)
      · simp only [Board.flip, Board.setStore, Function.update_of_ne htarget] at hmem
        exact Or.inl hmem
  | pop target queue' =>
      simp only [Board.setHandle, Board.setStore, ListStore.setQueue, Function.update_apply]
        at hmem
      grind [List.mem_of_mem_tail]
  | popMany target count queue' =>
      simp only [Board.setStore, FutexStore.popMany, ListStore.setQueue,
        Function.update_apply] at hmem
      grind [WaiterList.back, List.mem_of_mem_drop]
  | dropCancel target hstage hreaders hqueued =>
      simp only [Board.setStore, FutexStore.cancel, ListStore.setQueue,
        Function.update_apply] at hmem
      grind [List.mem_of_mem_erase]
  | _ => exact Or.inl hmem

omit [DecidableEq τ] in
theorem mem_flip {target futex : φ} {queue : κ}
    (hmem : waiter ∈ board.store.queues futex queue) :
    waiter ∈ (board.flip target).store.queues futex queue := by
  by_cases htarget : futex = target
  · subst htarget
    simp [Board.flip, Board.setStore, hmem]
  · simp only [Board.flip, Board.setStore, Function.update_of_ne htarget]
    exact hmem

/-- A waiter leaves a queue when it is popped or dropped. -/
theorem queues_mem (hstep : board.Step task input resp board') {futex : φ} {queue : κ}
    (hmem : waiter ∈ board.store.queues futex queue) :
    waiter ∈ board'.store.queues futex queue ∨
      input = .call (.pop futex queue) ∨
        (∃ count, input = .call (.popMany futex count queue)) ∨
          task = waiter ∧ board.stage waiter = .dropping := by
  cases hstep with
  | cmpxchgEnqueueWeak => exact Or.inl (mem_flip hmem)
  | dropFlip => exact Or.inl (mem_flip hmem)
  | pop target queue' =>
      simp only [Board.setHandle, Board.setStore, ListStore.setQueue, Function.update_apply]
      grind
  | popMany target count queue' =>
      simp only [Board.setStore, FutexStore.popMany, ListStore.setQueue, Function.update_apply]
      grind
  | dropCancel target hstage hreaders hqueued =>
      by_cases hwaiter : waiter = task
      · rw [hwaiter]
        exact Or.inr (Or.inr (Or.inr ⟨rfl, hstage⟩))
      · simp only [Board.setStore, FutexStore.cancel, ListStore.setQueue, Function.update_apply]
        grind
  | _ => exact Or.inl hmem

/-- A waiter leaves a handle list by `next` or by a requeue. -/
theorem list_mem (hstep : board.Step task input resp board')
    (hmem : waiter ∈ board.store.list other) :
    waiter ∈ board'.store.list other ∨ other = task ∧
      (input = .call .next ∨ (∃ futex count queue, input = .call (.popMany futex count queue)) ∨
        ∃ futex, board.activity task = .requeueing futex) := by
  cases hstep with
  | popMany futex count queue =>
      simp only [Board.setStore, FutexStore.popMany, Function.update_apply]
      grind
  | next =>
      simp only [Board.setHandle, Board.setStore, FutexStore.listPop, Function.update_apply]
      grind
  | requeueDone futex hlist hactivity =>
      simp only [Board.setActivity, Board.setStore, FutexStore.listPush,
        Function.update_apply]
      grind
  | _ => exact Or.inl hmem

end Board.Step

end AsyncMutex

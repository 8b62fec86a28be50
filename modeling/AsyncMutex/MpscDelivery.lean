import AsyncMutex.MpscHistory

/-!
# The channel loses, doubles and overtakes no message

Each step of the channel keeps the books.  So in every run the received messages
are the first of the accepted ones, in their order, and a drained channel has
delivered them all.
-/

namespace AsyncMutex

namespace Mpsc

variable {τ V ω : Type} [DecidableEq τ]

/-! ## The steps of the channel -/

section Steps

variable {cap : ℕ} {log : Log τ V} {receiver : τ} {ledger ledger' : Ledger τ V}
  {board board' : ChannelBoard τ} {inner inner' : Inner τ V ω} {pc : τ → Point τ V ω}
  {out slots waiting : List (Entry τ V)} {task : τ} {point : Point τ V ω}

omit [DecidableEq τ] in
theorem Receive.handle_of_inTurn {receive : Receive τ} {waiter : τ}
    (hpoint : ReceiveInv cap board receiver receive) (hmem : waiter ∈ receive.inTurn) :
    board.handle receiver = some waiter := by
  cases receive with
  | load other =>
      rw [List.mem_singleton.mp hmem]
      exact hpoint.1
  | advance other current =>
      rw [List.mem_singleton.mp hmem]
      exact hpoint.1
  | backfill other =>
      rw [List.mem_singleton.mp hmem]
      exact hpoint
  | _ => cases hmem

variable [DecidableEq ω]

/-- Whoever is in the line waits. -/
theorem pends_of_mem (hcore : Core cap receiver ledger board inner pc)
    (hco : Coherent cap board pc) (hmem : task ∈ (pc receiver).inTurn ++ contents board) :
    (pc task).pends = true := by
  rcases List.mem_append.mp hmem with hturn | hcontents
  · have hpoint := hcore.points receiver
    cases hpc : pc receiver with
    | receive receive head result =>
        rw [hpc] at hpoint hturn
        exact (pends_of_handle hco (Receive.handle_of_inTurn hpoint hturn)).1
    | _ =>
        rw [hpc] at hturn
        cases hturn
  · obtain ⟨place, hplaced⟩ := hco.placed
    refine (pends_of_placed hco hplaced fun hnowhere => ?_).1
    have hfutex := hplaced.places.mem_contents hcontents
    rw [hnowhere] at hfutex
    cases hfutex

theorem not_mem_of_pends (hcore : Core cap receiver ledger board inner pc)
    (hco : Coherent cap board pc) (hpends : (pc task).pends = false) :
    task ∉ (pc receiver).inTurn ++ contents board := by
  intro hmem
  rw [pends_of_mem hcore hco hmem] at hpends
  cases hpends

omit [DecidableEq ω] [DecidableEq τ] in
theorem contents_flip (board : ChannelBoard τ) : contents (board.flip ()) = contents board := by
  simp [contents, Board.flip, Board.setStore, ListStore.contents, ListStore.arrivals]

omit [DecidableEq ω] in
theorem contents_pop (board : ChannelBoard τ) (task : τ) (handle : Option τ) :
    contents board = (board.store.queues () 0).head?.toList ++
      contents ((board.setStore (board.store.setQueue () 0
        (board.store.queues () 0).tail)).setHandle task handle) := by
  have hsplit (queue : List τ) : contents ((board.setStore
      (board.store.setQueue () 0 queue)).setHandle task handle) =
        queue ++ board.store.arrivals () 0 := by
    simp only [contents, ListStore.contents, Board.setStore, Board.setHandle,
      ListStore.setQueue, Function.update_self]
    rfl
  rw [hsplit]
  cases hqueue : board.store.queues () 0 <;> simp [contents, ListStore.contents, hqueue]

/-- A future in a poll or in a drop belongs to a send that waits. -/
theorem waiting_of_stage (hco : Coherent cap board pc)
    (hstage : board.stage task = .waiting ∨ board.stage task = .dropping) :
    pc task = .waiting := by
  obtain ⟨queue, hslot⟩ := (hco.fits task).slot_of_stage hstage
  cases hpc : pc task with
  | receive point head result =>
      rw [hpc] at hslot
      cases point <;> cases hslot
  | waiting => rfl
  | _ =>
      rw [hpc] at hslot
      cases hslot

omit [DecidableEq τ] [DecidableEq ω] in
theorem enqueueAt_eq {current : FutexAtom τ SendState} {after : Receive τ}
    (hafter : enqueueAt cap current = some after) : after = .enqueue current := by
  unfold enqueueAt at hafter
  split at hafter <;> split at hafter <;> cases hafter <;> rfl

omit [DecidableEq τ] [DecidableEq ω] in
/-- The head of the loop of `send` does not change the slots. -/
theorem values_of_loopAt {before : Point τ V ω} (hbefore : before.receives = false)
    {current : FutexAtom τ SendState} {values values' : List V}
    (heffect : Effect inner task before (loopAt cap current) values values') :
    values' = values := by
  unfold loopAt at heffect
  split at heffect <;> cases before <;> first | exact heffect | cases hbefore

omit [DecidableEq τ] [DecidableEq ω] in
/-- The head of the loop of `send` accepts nothing. -/
theorem turn_loopAt {before : Point τ V ω} (hbefore : before.receives = false)
    (current : FutexAtom τ SendState) : log.turn task before (loopAt cap current) = log := by
  unfold loopAt
  split <;> cases before <;> first | rfl | cases hbefore

omit [DecidableEq τ] [DecidableEq ω] in
/-- A slot is free only if nobody waits for one. -/
theorem line_eq_nil (hcore : Core cap receiver ledger board inner pc)
    (hroom : (board.atom ()).size < cap) : (pc receiver).inTurn ++ contents board = [] := by
  have hfull : ¬ (board.store.inbox () ≠ [] ∨ board.store.queues () 0 ≠ []) := fun h =>
    Nat.ne_of_lt hroom (hcore.full h)
  rw [not_or, not_not, not_not] at hfull
  have hcontents : contents board = [] := by
    simp [contents, ListStore.contents, ListStore.arrivals, hfull.1, hfull.2]
  have hturn : (pc receiver).inTurn = [] := by
    have hpoint := hcore.points receiver
    have hfilling := hcore.layout.filling
    cases hpc : pc receiver with
    | receive receive head result =>
        rw [hpc] at hpoint hfilling
        cases receive with
        | load waiter => exact absurd hpoint.2 (Nat.ne_of_lt hroom)
        | advance waiter current => exact absurd hpoint.2 (Nat.ne_of_lt hroom)
        | backfill waiter => exact absurd (hfilling rfl) (Nat.ne_of_lt hroom)
        | _ => rfl
    | _ => rfl
  rw [hturn, hcontents]
  rfl

namespace Booked

/-- A step on the memory. -/
theorem own (hbooked : Booked log receiver ledger board inner pc out slots waiting)
    (hcore : Core cap receiver ledger board inner pc) (hco : Coherent cap board pc)
    (hact : act cap task inner (pc task) = some (inner', point))
    (heffect : Effect inner task (pc task) point ledger.values ledger'.values) :
    ∃ out slots waiting, Booked (log.turn task (pc task) point) receiver ledger' board inner'
      (Function.update pc task point) out slots waiting := by
  have hkeeps := hbooked.keeps task
  have hmem (hpends : (pc task).pends = false) : task ∉ (pc receiver).inTurn ++ contents board :=
    not_mem_of_pends hcore hco hpends
  have hreceiver (hreceives : (pc task).receives = true) : task = receiver :=
    hcore.receives task hreceives
  cases hpc : pc task with
  | create msg =>
      rw [hpc] at hact heffect hkeeps
      cases hact
      refine ⟨out, slots, waiting, hbooked.turn (by rw [hpc]; rfl) rfl heffect ?_
        (Or.inr (hmem (by rw [hpc]; rfl))) (fun _ => by rw [hpc]; rfl) (fun h => by cases h)
        (fun h => by cases h) (fun _ _ => rfl) rfl ?_⟩
      · exact fun other hother => by simp [Inner.setMessage, hother]
      · simpa [Point.Keeps, Inner.setMessage] using hkeeps.symm
  | write selected =>
      rw [hpc] at hact heffect
      obtain ⟨msg, -, heq⟩ := Option.map_eq_some_iff.mp hact
      cases heq
      refine ⟨out, slots, waiting, hbooked.turn (by rw [hpc]; rfl) rfl heffect ?_
        (Or.inr (hmem (by rw [hpc]; rfl))) (fun h => by cases h)
        (fun _ => Or.inl (by rw [hpc]; rfl)) (fun h => by cases h) (fun _ _ => rfl) rfl trivial⟩
      exact fun other hother => by simp [Inner.setData, Inner.setMessage, hother]
  | fill selected =>
      rw [hpc] at hact heffect
      cases hact
      exact ⟨out, slots, waiting, hbooked.pass (by rw [hpc]; rfl) heffect rfl rfl rfl
        fun _ => by rw [hpc]; rfl⟩
  | swap =>
      rw [hpc] at hact heffect
      simp only [act] at hact
      split at hact <;> cases hact <;>
        exact ⟨out, slots, waiting, hbooked.pass (by rw [hpc]; rfl) heffect rfl rfl rfl
          fun _ => by rw [hpc]; rfl⟩
  | wakeRecv waker =>
      rw [hpc] at hact heffect
      cases hact
      exact ⟨out, slots, waiting, hbooked.pass (by rw [hpc]; rfl) heffect rfl rfl rfl
        fun _ => by rw [hpc]; rfl⟩
  | cancelWoken =>
      rw [hpc] at hact heffect
      simp only [act] at hact
      split at hact <;> cases hact
      exact ⟨out, slots, waiting, hbooked.pass (by rw [hpc]; rfl) heffect rfl rfl rfl
        fun h => by cases h⟩
  | cancelSleeping =>
      rw [hpc] at hact heffect
      cases hact
      refine ⟨out, slots, waiting, hbooked.turn (by rw [hpc]; rfl) rfl heffect ?_
        (Or.inr (hmem (by rw [hpc]; rfl))) (fun h => by cases h) (fun h => by cases h)
        (fun h => by cases h) (fun _ _ => rfl) rfl trivial⟩
      exact fun other hother => by simp [Inner.setMessage, hother]
  | take =>
      obtain rfl := hreceiver (by rw [hpc]; rfl)
      rw [hpc] at hact heffect
      obtain ⟨result, -, heq⟩ := Option.map_eq_some_iff.mp hact
      obtain ⟨hinner, rfl⟩ := Prod.mk.inj heq
      have hmessage : inner'.message = inner.message := by
        rw [← hinner]
        rfl
      have hpoint : (Point.receive .lock inner.recvHead result : Point τ V ω).hold =
          some (.lock, result) := rfl
      obtain ⟨entry, rest, -, htake⟩ := hbooked.take (by rw [hpc]; rfl) hpoint heffect hmessage
      exact ⟨_, _, _, htake⟩
  | receive receive head result =>
      obtain rfl := hreceiver (by rw [hpc]; rfl)
      rw [hpc] at hact heffect
      cases receive with
      | backfill waiter =>
          obtain ⟨msg, -, heq⟩ := Option.map_eq_some_iff.mp hact
          obtain ⟨hinner, rfl⟩ := Prod.mk.inj heq
          have hmessage : ∀ other, other ≠ waiter →
              inner'.message other = inner.message other := by
            intro other hother
            rw [← hinner]
            exact Function.update_of_ne hother _ _
          obtain ⟨value, hvalue, hvalues⟩ := heffect
          have hhandle := hcore.points task
          rw [hpc] at hhandle
          have hpoint : (Point.receive .wake head result : Point τ V ω).hold =
              some (.wake, result) := rfl
          obtain ⟨entry, rest, -, hfill⟩ := hbooked.fill (by rw [hpc]; rfl) hpoint
            (pends_of_handle hco hhandle).1 hhandle hvalue hvalues hmessage
          exact ⟨_, _, _, hfill⟩
      | _ => cases hact
  | check waker =>
      rw [hpc] at hact heffect
      cases hact
      by_cases hfilled : (inner.buckets inner.recvHead).filled = true
      · simp only [hfilled, if_true] at heffect ⊢
        exact ⟨out, slots, waiting, hbooked.pass (by rw [hpc]; rfl) heffect rfl rfl rfl
          fun h => by cases h⟩
      · simp only [hfilled] at heffect ⊢
        exact ⟨out, slots, waiting, hbooked.pass (by rw [hpc]; rfl) heffect rfl rfl rfl
          fun h => by cases h⟩
  | recheck =>
      rw [hpc] at hact heffect
      cases hact
      by_cases hfilled : (inner.buckets inner.recvHead).filled = true
      · simp only [hfilled, if_true] at heffect ⊢
        exact ⟨out, slots, waiting, hbooked.pass (by rw [hpc]; rfl) heffect rfl rfl rfl
          fun h => by cases h⟩
      · simp only [hfilled] at heffect ⊢
        exact ⟨out, slots, waiting, hbooked.pass (by rw [hpc]; rfl) heffect rfl rfl rfl
          fun h => by cases h⟩
  | register waker =>
      rw [hpc] at hact heffect
      cases hact
      exact ⟨out, slots, waiting, hbooked.pass (by rw [hpc]; rfl) heffect rfl rfl rfl
        fun h => by cases h⟩
  | unregister =>
      rw [hpc] at hact heffect
      cases hact
      exact ⟨out, slots, waiting, hbooked.pass (by rw [hpc]; rfl) heffect rfl rfl rfl
        fun h => by cases h⟩
  | _ =>
      rw [hpc] at hact
      cases hact

/-- A step that does not answer. -/
theorem quiet (hbooked : Booked log receiver ledger board inner pc out slots waiting)
    (hcore : Core cap receiver ledger board inner pc)
    {input : Board.Input τ Unit (Fin 1) SendState}
    (hasks : (client cap : Client τ _ _ _ _ (Point τ V ω) _).Asks (pc task) input)
    (hstep : board.Step task input none board') (hcontents : contents board' = contents board) :
    Booked log receiver ledger board' inner pc out slots waiting := by
  refine hbooked.keep rfl (by rw [hcontents]) rfl (fun _ _ => rfl) (fun _ h => h) ?_
    hbooked.keeps
  intro other hother
  refine hother.imp_right fun h => ⟨h.1, ?_⟩
  have hwoken := h.2
  cases hstep with
  | wake waiter hhandle =>
      obtain ⟨receive, head, result, hpc, hreceive⟩ :=
        receives_of_code (hasks _ rfl) (Or.inl rfl)
      obtain rfl : task = receiver := hcore.receives task (by rw [hpc]; rfl)
      have hhanding : Handing board task (pc task) waiter := by
        refine ⟨⟨head, result, ?_⟩, hhandle⟩
        rcases hreceive with rfl | rfl
        · exact hpc
        · have hcode := hasks _ rfl
          simp only [client] at hcode
          rw [hpc] at hcode
          cases hcode
      by_cases hsame : other = waiter
      · rw [hsame]
        exact Or.inr hhanding
      · rcases hwoken with hawake | ⟨-, hhanded⟩
        · exact Or.inl (by simpa [Board.setActivity, Board.setHandle, Board.setAwake, hsame]
            using hawake)
        · simp [Board.setActivity, Board.setHandle] at hhanded
  | requeue futex => exact absurd (hasks _ rfl) (code_ne_requeue _ futex)
  | _ => exact hwoken

omit [DecidableEq ω] in
theorem enterLoop (hbooked : Booked log receiver ledger board inner pc out slots waiting)
    (hreceives : (pc task).receives = false) (hasks : (pc task).asks = true)
    (hmessage : inner.message task = log.current task) {current : FutexAtom τ SendState}
    (heffect : Effect inner task (pc task) (loopAt cap current) ledger.values ledger'.values) :
    Booked (log.turn task (pc task) (loopAt cap current)) receiver ledger' board inner
      (Function.update pc task (loopAt cap current)) out slots waiting := by
  have hhold : (pc task).hold = none := by
    by_contra h
    rw [Point.receives_of_hold h] at hreceives
    cases hreceives
  have hvalues := values_of_loopAt hreceives heffect
  rw [turn_loopAt hreceives]
  unfold loopAt
  split <;>
    exact hbooked.turn hhold.symm rfl hvalues (fun _ _ => rfl) (Or.inl rfl) (fun _ => hasks)
      (fun h => by cases h) (fun h => by cases h) (fun _ _ => rfl) rfl hmessage

/-- An operation of `send`. -/
theorem send_answer (hbooked : Booked log receiver ledger board inner pc out slots waiting)
    (hcore : Core cap receiver ledger board inner pc) (hco : Coherent cap board pc)
    (hreceives : (pc task).receives = false) {op : Op τ Unit (Fin 1) SendState}
    (hcode : code cap (pc task) = .call op) {resp : Resp τ SendState}
    (hstep : board.Step task (.call op) (some resp) board')
    (hresume : resume cap (pc task) resp = some point)
    (heffect : Effect inner task (pc task) point ledger.values ledger'.values) :
    ∃ out slots waiting, Booked (log.turn task (pc task) point) receiver ledger' board' inner
      (Function.update pc task point) out slots waiting := by
  have hkeeps := hbooked.keeps task
  have hpoint := hcore.points task
  cases hpc : pc task with
  | waiter =>
      rw [hpc] at hcode hresume heffect hkeeps
      cases hcode
      have hfree := (hco.fits task).slot
      rw [hpc] at hfree
      obtain ⟨place, hplaced⟩ := hco.placed
      have hnowhere : place task = .nowhere := by
        by_contra hne
        rcases hfree with h | ⟨futex, h⟩ <;>
          rcases hplaced.waits task hne with h' | h' | h' <;> rw [h] at h' <;> cases h'
      have hrenew := hplaced.places.contents_renew hnowhere (0 : Fin 1)
      cases hstep
      cases hresume
      refine ⟨out, slots, waiting, hbooked.turn (by rw [hpc]; rfl) ?_ heffect (fun _ _ => rfl)
        (Or.inl rfl) (fun _ => by rw [hpc]; rfl) (fun h => by cases h) (fun h => by cases h)
        (fun other hother => ?_) rfl hkeeps⟩
      · exact congrFun (congrFun hrenew ()) 0
      · simp [Board.setAwake, Board.setStage, Board.setOwner, Board.setStore, hother]
  | sendLoad =>
      rw [hpc] at hcode hresume hkeeps
      cases hcode
      cases hstep
      cases hresume
      rw [← hpc]
      exact ⟨out, slots, waiting, hbooked.enterLoop hreceives (by rw [hpc]; rfl) hkeeps heffect⟩
  | reserve current =>
      rw [hpc] at hcode hresume hkeeps hpoint
      cases hcode
      cases hstep
      case cmpxchgWeak =>
        cases hresume
        rw [hpc] at heffect
        obtain ⟨value, hvalue, hvalues⟩ := heffect
        have hmsg : log.current task = some value := hkeeps.symm.trans hvalue
        have hroom : (board.atom ()).size < cap := hpoint.2
        exact ⟨_, _, _, hbooked.reserve (by rw [hpc]; rfl) hmsg rfl trivial (by rw [hpc]; rfl)
          (line_eq_nil hcore hroom) rfl hvalues rfl rfl⟩
      case cmpxchgWeakFails =>
        cases hresume
        rw [← hpc]
        exact ⟨out, slots, waiting,
          hbooked.enterLoop hreceives (by rw [hpc]; rfl) hkeeps heffect⟩
  | wait current =>
      rw [hpc] at hcode hresume hkeeps hpoint
      cases hcode
      cases hstep
      case cmpxchgWaitWeak =>
        cases hresume
        rw [hpc] at heffect
        obtain ⟨value, hvalue⟩ := Option.ne_none_iff_exists'.mp hpoint.1
        have hmsg : log.current task = some value := hkeeps.symm.trans hvalue
        refine ⟨_, _, _, hbooked.wait (by rw [hpc]; rfl) hmsg hvalue rfl trivial
          (by rw [hpc]; rfl) ?_ heffect rfl rfl⟩
        refine (Places.contents_push board.store () task () 0).trans (if_pos ⟨rfl, ?_⟩)
        exact Subsingleton.elim _ _
      case cmpxchgWaitWeakFails =>
        cases hresume
        rw [← hpc]
        exact ⟨out, slots, waiting,
          hbooked.enterLoop hreceives (by rw [hpc]; rfl) hkeeps heffect⟩
  | entered =>
      rw [hpc] at hcode hresume heffect
      cases hcode
      cases hstep
      cases hresume
      exact ⟨out, slots, waiting, hbooked.turn (by rw [hpc]; rfl) rfl heffect (fun _ _ => rfl)
        (Or.inl rfl) (fun h => by cases h) (fun h => by cases h)
        (fun _ => ⟨by rw [hpc]; rfl, rfl⟩) (fun _ _ => rfl) rfl trivial⟩
  | receive receive head result =>
      rw [hpc] at hreceives
      cases hreceives
  | _ =>
      rw [hpc] at hcode
      cases hcode

omit [DecidableEq ω] in
/-- An operation of `recv`. -/
theorem receive_answer (hbooked : Booked log receiver ledger board inner pc out slots waiting)
    {receive : Receive τ} {head : ℕ} {result : V} (hpc : pc receiver = .receive receive head result)
    {op : Op τ Unit (Fin 1) SendState} (hop : receiveOp cap receive = some op)
    {resp : Resp τ SendState} (hstep : board.Step receiver (.call op) (some resp) board')
    (hresume : resume cap (pc receiver) resp = some point)
    (heffect : Effect inner receiver (pc receiver) point ledger.values ledger'.values) :
    Booked (log.turn receiver (pc receiver) point) receiver ledger' board' inner
      (Function.update pc receiver point) out slots waiting := by
  have hhold : (pc receiver).hold = some (receive, result) := by
    rw [hpc]
    rfl
  rw [hpc] at hresume heffect
  rw [hpc]
  cases receive with
  | lock =>
      cases hop
      cases hstep
      cases hresume
      exact hbooked.receive hhold rfl (by simp) rfl heffect rfl
  | borrow =>
      cases hop
      cases hstep
      cases hresume
      exact hbooked.receive hhold rfl (by simp) rfl heffect rfl
  | pop =>
      cases hop
      cases hstep
      have hcontents := contents_pop board receiver (board.store.queues () 0).head?
      cases hhead : (board.store.queues () 0).head? with
      | none =>
          rw [hhead] at hresume hcontents
          cases hresume
          exact hbooked.receive hhold rfl (by simp) hcontents.symm heffect rfl
      | some waiter =>
          rw [hhead] at hresume hcontents
          cases hresume
          exact hbooked.receive hhold rfl (by simp) hcontents.symm heffect rfl
  | load waiter =>
      cases hop
      cases hstep
      obtain ⟨after, hafter, rfl⟩ := Option.map_eq_some_iff.mp hresume
      simp only [resumeReceive, advanceAt] at hafter
      split at hafter <;> cases hafter
      exact hbooked.receive hhold rfl (by simp) rfl heffect rfl
  | advance waiter current =>
      cases hop
      cases hstep
      case cmpxchgWeak =>
        cases hresume
        exact hbooked.receive hhold rfl (by simp) rfl heffect rfl
      case cmpxchgWeakFails =>
        obtain ⟨after, hafter, rfl⟩ := Option.map_eq_some_iff.mp hresume
        simp only [resumeReceive, advanceAt] at hafter
        split at hafter <;> cases hafter
        exact hbooked.receive hhold rfl (by simp) rfl heffect rfl
  | loadEmpty =>
      cases hop
      cases hstep
      obtain ⟨after, hafter, rfl⟩ := Option.map_eq_some_iff.mp hresume
      obtain rfl := enqueueAt_eq hafter
      exact hbooked.receive hhold rfl (by simp) rfl heffect rfl
  | enqueue current =>
      cases hop
      cases hstep
      case cmpxchgEnqueueWeak =>
        cases hresume
        exact hbooked.receive hhold rfl (by simp) (contents_flip board) heffect rfl
      case cmpxchgEnqueueWeakFails =>
        obtain ⟨after, hafter, rfl⟩ := Option.map_eq_some_iff.mp hresume
        obtain rfl := enqueueAt_eq hafter
        exact hbooked.receive hhold rfl (by simp) rfl heffect rfl
  | popAgain =>
      cases hop
      cases hstep
      have hcontents := contents_pop board receiver (board.store.queues () 0).head?
      cases hhead : (board.store.queues () 0).head? with
      | none =>
          rw [hhead] at hresume hcontents
          cases hresume
          exact hbooked.receive hhold rfl (by simp) hcontents.symm heffect rfl
      | some waiter =>
          rw [hhead] at hresume hcontents
          cases hresume
          exact hbooked.receive hhold rfl (by simp) hcontents.symm heffect rfl
  | backfill waiter => cases hop
  | wake =>
      cases hop
      cases hstep
  | release =>
      cases hop
      cases hstep
      cases hresume
      exact hbooked.receive hhold rfl (by simp) rfl heffect rfl
  | unlock =>
      cases hop
      cases hstep
      cases hresume
      exact hbooked.finish hhold rfl heffect rfl

/-- The end of a wake, of a poll or of a drop. -/
theorem go_answer (hbooked : Booked log receiver ledger board inner pc out slots waiting)
    (hcore : Core cap receiver ledger board inner pc) (hco : Coherent cap board pc)
    {resp : Resp τ SendState} (hstep : board.Step task .go (some resp) board')
    (hresume : resume cap (pc task) resp = some point)
    (heffect : Effect inner task (pc task) point ledger.values ledger'.values) :
    Booked (log.turn task (pc task) point) receiver ledger' board' inner
      (Function.update pc task point) out slots waiting := by
  cases hstep with
  | wakeDone hactivity =>
      obtain ⟨receive, head, result, hpc, hreceive⟩ :=
        receives_of_code ((hco.fits task).waking hactivity) (Or.inl rfl)
      obtain rfl : task = receiver := hcore.receives task (by rw [hpc]; rfl)
      have hcode := (hco.fits task).waking hactivity
      have hhold : (pc task).hold = some (receive, result) := by
        rw [hpc]
        rfl
      rw [hpc] at hresume hcode heffect
      rw [hpc]
      rcases hreceive with rfl | rfl
      · cases hresume
        exact hbooked.receive hhold rfl (by simp) rfl heffect rfl
      · cases hcode
  | requeueDone futex hlist hactivity =>
      exact absurd ((hco.fits task).requeueing futex hactivity) (code_ne_requeue _ futex)
  | ready hstage hawake =>
      have hpc := waiting_of_stage hco (Or.inl hstage)
      rw [hpc] at hresume heffect
      rw [hpc]
      cases hresume
      exact hbooked.turn (by rw [hpc]; rfl) rfl heffect (fun _ _ => rfl) (Or.inl rfl)
        (fun h => by cases h) (fun _ => Or.inr ⟨by rw [hpc]; rfl, hawake⟩) (fun h => by cases h)
        (fun _ _ => rfl) rfl trivial
  | cancelWoken hstage hawake =>
      have hpc := waiting_of_stage hco (Or.inr hstage)
      rw [hpc] at hresume heffect
      rw [hpc]
      cases hresume
      refine hbooked.turn (by rw [hpc]; rfl) rfl heffect (fun _ _ => rfl) (Or.inl rfl)
        (fun h => by cases h) (fun _ => Or.inr ⟨by rw [hpc]; rfl, hawake⟩) (fun h => by cases h)
        (fun other hother => ?_) rfl trivial
      simp [Board.setAwake, Board.setStage, hother]
  | cancelSleeping hstage =>
      have hpc := waiting_of_stage hco (Or.inr hstage)
      rw [hpc] at hresume heffect
      rw [hpc]
      cases hresume
      exact hbooked.turn (by rw [hpc]; rfl) rfl heffect (fun _ _ => rfl) (Or.inl rfl)
        (fun h => by cases h) (fun h => by cases h) (fun h => by cases h) (fun _ _ => rfl) rfl
        trivial

/-- The code of a task goes on with a response. -/
theorem answer (hbooked : Booked log receiver ledger board inner pc out slots waiting)
    (hcore : Core cap receiver ledger board inner pc) (hco : Coherent cap board pc)
    {input : Board.Input τ Unit (Fin 1) SendState}
    (hasks : (client cap : Client τ _ _ _ _ (Point τ V ω) _).Asks (pc task) input)
    {resp : Resp τ SendState} (hstep : board.Step task input (some resp) board')
    (hresume : resume cap (pc task) resp = some point)
    (heffect : Effect inner task (pc task) point ledger.values ledger'.values) :
    ∃ out slots waiting, Booked (log.turn task (pc task) point) receiver ledger' board' inner
      (Function.update pc task point) out slots waiting := by
  cases input with
  | call op =>
      have hcode : code cap (pc task) = .call op := hasks op rfl
      cases hreceives : (pc task).receives with
      | false => exact hbooked.send_answer hcore hco hreceives hcode hstep hresume heffect
      | true =>
          obtain rfl : task = receiver := hcore.receives task hreceives
          cases hpc : pc task with
          | receive receive head result =>
              rw [hpc] at hcode
              cases hop : receiveOp cap receive with
              | none => simp [code, hop] at hcode
              | some op' =>
                  simp only [code, hop, Code.call.injEq] at hcode
                  subst hcode
                  rw [← hpc]
                  exact ⟨_, _, _, hbooked.receive_answer hpc hop hstep hresume heffect⟩
          | _ =>
              rw [hpc] at hcode hreceives
              first | (cases hreceives; done) | cases hcode
  | go => exact ⟨_, _, _, hbooked.go_answer hcore hco hstep hresume heffect⟩
  | drop => cases hstep

/-- A call begins. -/
theorem call (hbooked : Booked log receiver ledger board inner pc out slots waiting)
    (hcore : Core cap receiver ledger board inner pc) (hco : Coherent cap board pc)
    {call : Call V ω} (hstart : Mpsc.start (pc task) call = some point)
    (hcore' : Core cap receiver' ledger board inner (Function.update pc task point)) :
    Booked (log.call task call) receiver' ledger board inner (Function.update pc task point) out
      slots waiting := by
  have hends : (pc task).hold = none ∧ (pc task).pends = false ∧ point.hold = none := by
    unfold Mpsc.start at hstart
    split at hstart <;> cases hstart <;> rename_i hpc <;> rw [hpc] <;> exact ⟨rfl, rfl, rfl⟩
  obtain ⟨hnone, hpends, hpoint⟩ := hends
  have hhold : point.hold = (pc task).hold := by rw [hpoint, hnone]
  have hreceives (other : τ) (hne : (Function.update pc task point other).hold ≠ none) :
      other = receiver := by
    rw [hold_update hhold] at hne
    exact hcore.receives other (Point.receives_of_hold hne)
  refine Booked.adopt ?_ hreceives fun other hne =>
    hcore'.receives other (Point.receives_of_hold hne)
  have hmem := not_mem_of_pends hcore hco hpends
  unfold Mpsc.start at hstart
  split at hstart <;> cases hstart <;>
    first
      | exact hbooked.start hnone hmem
      | exact hbooked.pass hhold rfl rfl rfl rfl fun h => by cases h

end Booked

end Steps

/-! ## The runs of the channel -/

section Runs

variable [DecidableEq ω] {cap : ℕ} {log : Log τ V}

/-- The books agree with the channel. -/
def Accounts (cap : ℕ) (log : Log τ V) (sys : ListChannel τ V ω) : Prop :=
  ∃ receiver ledger out slots waiting,
    Core cap receiver ledger sys.world.board sys.memory sys.pc ∧
      Booked log receiver ledger sys.world.board sys.memory sys.pc out slots waiting

/-- Only the removal in a drop, and the operations that answer, change the line. -/
theorem contents_quiet {world : ListWorld τ Unit (Fin 1) SendState ω}
    {place : τ → Place τ Unit (Fin 1)} (hinv : World.Inv world place) {task : τ}
    {act : Act τ Unit (Fin 1) SendState ω}
    {outcome : AsyncMutex.Outcome (ListStore τ Unit (Fin 1)) τ Unit SendState ω}
    (hstep : world.step task act = some outcome) (hresp : outcome.resp = none)
    (hcancel : ∀ spurious futex, act = .step spurious → world.phase task ≠ .dropCancel futex) :
    contents outcome.world.board = contents world.board := by
  have heffect := congrArg (fun fifo => fifo.waiting 0) (hinv.step_fifo hstep ())
  have hskip : world.fifoOp task act none () = .skip := by
    cases act with
    | call op spurious waker => cases op <;> rfl
    | poll => rfl
    | drop => rfl
    | step spurious =>
        simp only [World.fifoOp]
        split
        · simp
        case h_2 futex _ hphase => exact absurd hphase (hcancel spurious futex rfl)
        · rfl
  rw [hresp, hskip] at heffect
  exact heffect

variable [Fintype τ]

namespace Accounts

variable {sys : ListChannel τ V ω} {task : τ}

/-- The drop of a send removes its waiter, if it is still there. -/
theorem cancel (haccounts : Accounts cap log sys) (hsys : Sound cap sys) (hcap : 0 < cap)
    {futex : Unit} (hphase : sys.world.phase task = .dropCancel futex) {spurious : Bool}
    {outcome : AsyncMutex.Outcome (ListStore τ Unit (Fin 1)) τ Unit SendState ω}
    (hstep : sys.world.step task (.step spurious) = some outcome) :
    outcome.resp = none ∧
      Accounts cap (if sys.world.awake task then log else log.withdraw task)
        { sys with world := outcome.world } := by
  obtain ⟨receiver, ledger, out, slots, waiting, hcore, hbooked⟩ := haccounts
  obtain ⟨place, hplace⟩ := hsys.placed
  have hplaced := hplace.placed
  have hpc : sys.pc task = .waiting := by
    refine waiting_of_stage hsys.coherent (Or.inr ?_)
    simp [World.board, hphase, Phase.stage]
  have hbusy : sys.world.busy task = .none := hsys.busy_of_rest (by rw [hpc]; rfl)
  have heffect := congrArg (fun fifo => fifo.waiting 0) (hplace.step_fifo hstep ())
  have hboard := (hsys.step_board (typed cap) (invariant hcap) (rfl :
    (client cap).request (sys.pc task) (.step spurious) = some (.step spurious)) hstep).2
  have houtcome : outcome.resp = none ∧ outcome.world.waker = sys.world.waker ∧
      outcome.world.handle = sys.world.handle := by
    simp only [World.step, hbusy, ne_eq, not_true_eq_false, if_false, hphase, World.dropStep,
      Option.some.injEq] at hstep
    rw [← hstep]
    exact ⟨rfl, rfl, rfl⟩
  obtain ⟨hresp, hwaker, hhandle⟩ := houtcome
  rw [hresp] at hboard heffect
  have hasks : (client cap : Client τ _ _ _ _ (Point τ V ω) _).Asks (sys.pc task) .go :=
    fun op hop => by cases hop
  have hleave : contents outcome.world.board =
      (contents sys.world.board).filter fun other => other ≠ task := by
    have hop : sys.world.fifoOp task (.step spurious) none () = .leave task := by
      simp [World.fifoOp, hbusy, hphase]
    rw [hop] at heffect
    exact heffect
  have hawake : outcome.world.board.awake = sys.world.board.awake := by
    funext other
    simp [World.board, hwaker]
  refine ⟨hresp, receiver, ledger, out, slots, ?_⟩
  have hquiet := hcore.quiet hsys.coherent hasks hboard
  cases hwoken : sys.world.awake task with
  | true =>
      have hnowhere : place task = .nowhere := by
        by_contra hne
        have hasleep : sys.world.awake task = false := hplaced.asleep task hne
        rw [hwoken] at hasleep
        cases hasleep
      have hmem : task ∉ contents sys.world.board := by
        intro hmem
        have hfutex := hplaced.places.mem_contents hmem
        rw [hnowhere] at hfutex
        cases hfutex
      refine ⟨waiting, hquiet, hbooked.quiet hcore hasks hboard ?_⟩
      rw [hleave, List.filter_eq_self]
      intro other hother
      refine decide_eq_true fun heq => ?_
      rw [heq] at hother
      exact hmem hother
  | false =>
      have hqueued : ∃ queue, place task = .queue futex queue := by
        refine (hplace.place_of_cancel hphase).resolve_left fun hnowhere => ?_
        have hdone := (hplace.task task).woken (by rw [hphase]; trivial) hnowhere
        simp [World.awake, hdone, WaiterWaker.isDone] at hwoken
      obtain ⟨queue, hqueue⟩ := hqueued
      have hmem : task ∈ contents sys.world.board := by
        have hmem := (hplaced.places.queues futex queue task).mpr hqueue
        rw [Subsingleton.elim queue 0] at hmem
        exact List.mem_append_left _ hmem
      refine ⟨_, hquiet, hbooked.withdraw hmem (by rw [hpc]; rfl) hwoken ?_ hleave hawake hhandle⟩
      rintro ⟨-, hhanded⟩
      have hhand := (hplaced.places.hand receiver task).mp hhanded
      rw [hqueue] at hhand
      cases hhand

/-- Every step of the channel keeps its books. -/
theorem next (haccounts : Accounts cap log sys) (hsys : Sound cap sys) (hcap : 0 < cap)
    {label : Label (Call V ω) ω}
    {result : ListChannel τ V ω × List (ChannelMark τ V ω)}
    (hnext : sys.next (client cap) task label = some result)
    (hallowed : sys.allowed usage task label result.1.pc = true) :
    Accounts cap (log.note sys (task, label) result.1) result.1 := by
  obtain ⟨-, hstep⟩ := System.next_spec hnext
  have hco := hsys.coherent
  cases hstep with
  | @start call point hcode hstart =>
      obtain ⟨receiver, ledger, out, slots, waiting, hcore, hbooked⟩ := haccounts
      obtain ⟨receiver', hcore', -⟩ :=
        hcore.start hstart (of_decide_eq_true (Bool.and_eq_true_iff.mp hallowed).1)
      exact ⟨receiver', ledger, out, slots, waiting, hcore',
        hbooked.call hcore hco hstart hcore'⟩
  | act hcode hact =>
      obtain ⟨receiver, ledger, out, slots, waiting, hcore, hbooked⟩ := haccounts
      obtain ⟨inner', point, ledger', hact', hcore', heffect⟩ := hcore.own hcap hco hcode
      have heq := hact.symm.trans hact'
      cases heq
      obtain ⟨out', slots', waiting', hbooked'⟩ := hbooked.own hcore hco hact' heffect
      refine ⟨receiver, ledger', out', slots', waiting', hcore', ?_⟩
      simp only [Log.note, System.setPc, Function.update_self]
      exact hbooked'
  | fail hcode hact =>
      obtain ⟨memory', point, hact', -⟩ := (invariant hcap).own _ _ _ task hco hsys.inv hcode
      have heq := hact.symm.trans hact'
      cases heq
  | @move _ act outcome hrequest hstep =>
      by_cases hcancel : ∃ spurious futex, label = .step spurious ∧
          sys.world.phase task = .dropCancel futex
      · obtain ⟨spurious, futex, rfl, hphase⟩ := hcancel
        cases hrequest
        obtain ⟨hresp, hkeep⟩ := haccounts.cancel hsys hcap hphase hstep
        simp only [Log.note, hphase, System.settle, hresp]
        exact hkeep
      · rw [not_exists] at hcancel
        have hact (spurious : Bool) (futex : Unit) (hact : act = .step spurious) :
            sys.world.phase task ≠ .dropCancel futex := by
          rintro hphase
          refine hcancel spurious ⟨futex, ?_, hphase⟩
          rw [hact] at hrequest
          cases label with
          | step => cases hrequest; rfl
          | call =>
              simp only [Client.request] at hrequest
              split at hrequest <;> cases hrequest
          | _ => cases hrequest
        rw [Log.note_eq (fun call hcall => by rw [hcall] at hrequest; cases hrequest)
          fun spurious futex hlabel hphase => hcancel spurious ⟨futex, hlabel, hphase⟩]
        obtain ⟨receiver, ledger, out, slots, waiting, hcore, hbooked⟩ := haccounts
        obtain ⟨hcalls, hboard⟩ := hsys.step_board (typed cap) (invariant hcap) hrequest hstep
        have hasks : (client cap : Client τ _ _ _ _ (Point τ V ω) _).Asks (sys.pc task)
            (World.Inv.input act) := fun op hop => (hcalls op hop).1
        obtain ⟨place, hplace⟩ := hsys.placed
        cases hresp : outcome.resp with
        | none =>
            rw [hresp] at hboard
            have hcontents := contents_quiet hplace hstep hresp hact
            simp only [System.settle, hresp, Log.turn_self]
            exact ⟨receiver, ledger, out, slots, waiting, hcore.quiet hco hasks hboard,
              hbooked.quiet hcore hasks hboard hcontents⟩
        | some resp =>
            rw [hresp] at hboard
            obtain ⟨point, hgo, -⟩ :=
              hsys.answer (typed cap) (invariant hcap) hrequest hstep hresp
            obtain ⟨point', ledger', hresume, hcore', heffect⟩ := hcore.answer hco hasks hboard
            have hpoint : point = point' := by
              obtain ⟨hpanic, hmisuse⟩ := hboard.resp_ne
              have hsome : (client cap).resume (sys.pc task) resp = some point := by
                cases resp <;> first | exact hgo | exact absurd rfl hpanic |
                  exact absurd rfl hmisuse
              exact Option.some.inj (hsome.symm.trans hresume)
            rw [← hpoint] at hcore' heffect hresume
            obtain ⟨out', slots', waiting', hbooked'⟩ :=
              hbooked.answer hcore hco hasks hboard hresume heffect
            simp only [System.settle, hresp, hgo, System.setPc, Function.update_self]
            exact ⟨receiver, ledger', out', slots', waiting', hcore', hbooked'⟩

end Accounts

variable {inner : Inner τ V ω} {history : List (ChannelMark τ V ω)} {sys : HeapChannel τ V ω}

/-- The channel with its books. -/
def audited (cap : ℕ) (inner : Inner τ V ω) :
    Machine (HeapChannel τ V ω × Log τ V) (τ × Label (Call V ω) ω) (ChannelMark τ V ω) :=
  (machine cap inner).record (fun before label _ after log => log.note before label after)
    Log.empty

theorem accounts_initial (hnew : Inner.new cap = some inner) (task : τ) :
    Accounts cap Log.empty (lists cap inner).init :=
  ⟨task, ⟨0, []⟩, [], [], [], core_initial hnew task, rfl, rfl, rfl, rfl,
    fun _ h => (by cases h), ⟨fun _ h => (by cases h), List.nodup_nil, fun _ h => (by cases h)⟩,
    fun _ h => (by rcases h with h | ⟨h, -⟩ <;> cases h), fun _ => trivial⟩

theorem accounts_of_trace [Nonempty τ] (hnew : Inner.new cap = some inner)
    (htrace : (audited cap inner).Trace history (sys, log)) :
    (machine cap inner).Trace history sys ∧ Accounts cap log sys.lists := by
  obtain ⟨hcap, -⟩ := new_spec hnew
  obtain ⟨task⟩ := ‹Nonempty τ›
  refine htrace.invariant (motive := fun history (current : HeapChannel τ V ω × Log τ V) =>
    (machine cap inner).Trace history current.1 ∧ Accounts cap current.2 current.1.lists)
    ⟨Machine.trace_init _, ?_⟩ ?_
  · have hworld := (World.RepresentedBy.initial (0 : Fin 1) (fun _ : Unit => SendState.mk 0 0)
      () : World.RepresentedBy (_ : ListWorld τ Unit (Fin 1) SendState ω) _).lists_eq
        (World.Inv.initial 0 _ ())
    have hinit : (machine cap inner).init.lists = (lists cap inner).init :=
      congrArg (fun world => (⟨world, inner, fun _ => .idle, false⟩ : ListChannel τ V ω)) hworld
    rw [show ((audited cap inner).init.1.lists : ListChannel τ V ω) = _ from hinit]
    exact accounts_initial hnew task
  · rintro past ⟨before, log⟩ label ⟨after, log'⟩ marks - ⟨hbefore, haccounts⟩ hnext
    obtain ⟨hnext, hlog⟩ := Machine.record_next hnext
    refine ⟨hbefore.step hnext, ?_⟩
    obtain ⟨hlists, -⟩ := System.lists_of_trace hbefore
    obtain ⟨hnext', hallowed⟩ := System.machine_next.mp (System.next_lists hbefore hnext)
    rw [show log' = _ from hlog]
    exact haccounts.next (sound_of_reachable hnew hlists.reachable) hcap hnext' hallowed

/-- What the books say about the channel. -/
structure Delivers (cap : ℕ) (sys : HeapChannel τ V ω) (log : Log τ V) : Prop where
  safe : sys.panicked = false
  /-- No send is accepted twice. -/
  once : (log.accepted.map fun entry => (entry.task, entry.number)).Nodup
  /-- The messages are received in the order in which they were accepted. -/
  order : log.received <+: log.accepted.map Entry.msg
  /-- A send that has returned was accepted. -/
  sent : ∀ task, sys.pc task = .ended .sent → log.Has task
  /-- Between the polls, the other messages are in the slots and in the sends that
  wait. -/
  kept : (∀ task, code cap (sys.pc task) = .rest) →
    log.accepted.map (fun entry => some entry.msg) = log.received.map some ++
      (((List.range (sys.world.atom ()).size).map fun offset =>
        (sys.memory.buckets ((sys.memory.recvHead + offset) % cap)).data) ++
          (sys.lists.world.store.contents () 0).map sys.memory.message)
  /-- A receiver that waits for good has received everything. -/
  drained : Quiet cap sys → ∀ task, sys.pc task = .blocked →
    log.accepted.map Entry.msg = log.received

omit [DecidableEq τ] [DecidableEq ω] [Fintype τ] in
/-- The slots in use hold the values of the ledger. -/
theorem Layout.data {atom : SendState} {memory : Inner τ V ω} {pc : τ → Point τ V ω}
    {transit : Transit} {ledger : Ledger τ V} (hlayout : Layout cap atom memory pc transit ledger)
    (hidle : ∀ task, (pc task).writes = none) :
    ledger.values.map some = (List.range ledger.line.length).map fun offset =>
      (memory.buckets ((memory.recvHead + offset) % cap)).data := by
  refine List.ext_getElem (by simp [Ledger.values]) fun offset hoffset _ => ?_
  have hline : offset < ledger.line.length := by simpa [Ledger.values] using hoffset
  have hslot : (memory.recvHead + offset) % cap = Ring.slot cap ledger.base offset := by
    rw [hlayout.recvHead, Ring.slot, Ring.slot, Nat.add_zero, Nat.mod_add_mod]
  have hfits := hlayout.window.entry offset _ (List.getElem?_eq_getElem hline)
  simp only [Ledger.values, List.getElem_map, List.getElem_range, hslot]
  cases hticket : ledger.line[offset] with
  | writing task value =>
      rw [hticket] at hfits
      rcases hfits.2 with ⟨hwrites, -⟩ | ⟨hwrites, -⟩
      · rw [hidle] at hwrites
        cases hwrites
      · rw [hidle] at hwrites
        cases hwrites
  | stored value =>
      rw [hticket] at hfits
      exact hfits.2.symm

omit [DecidableEq τ] [DecidableEq ω] [Fintype τ] in
/-- Between the polls nothing is in hand. -/
theorem idle_of_rest {point : Point τ V ω} (hrest : code cap point = .rest) :
    point.hold = none ∧ point.writes = none ∧ ∀ queued, point.transit queued = .none := by
  cases point with
  | receive receive head result => cases receive <;> cases hrest
  | _ => first | exact ⟨rfl, rfl, fun _ => rfl⟩ | cases hrest

theorem Accounts.delivers (haccounts : Accounts cap log sys.lists)
    (hnew : Inner.new cap = some inner) (hmachine : (machine cap inner).Trace history sys) :
    Delivers cap sys log := by
  obtain ⟨hlists, -⟩ := System.lists_of_trace hmachine
  have hsound := sound_of_reachable hnew hlists.reachable
  obtain ⟨receiver, ledger, out, slots, waiting, hcore, hbooked⟩ := haccounts
  have haccepted := congrArg (List.map Entry.msg) hbooked.accepted
  rw [List.map_append, hbooked.received, List.append_assoc] at haccepted
  have hkept (hrests : ∀ task, code cap (sys.pc task) = .rest) :
      log.accepted.map (fun entry => some entry.msg) = log.received.map some ++
        (((List.range (sys.world.atom ()).size).map fun offset =>
          (sys.memory.buckets ((sys.memory.recvHead + offset) % cap)).data) ++
            (sys.lists.world.store.contents () 0).map sys.memory.message) := by
    obtain ⟨hhold, -, htransit⟩ := idle_of_rest (hrests receiver)
    have hsize : (sys.world.atom ()).size = ledger.line.length := by
      have hsize := hcore.layout.size
      rw [show sys.lists.pc receiver = sys.pc receiver from rfl, htransit] at hsize
      exact hsize
    have hinHand : (sys.lists.pc receiver).inHand = [] := Point.inHand_of_none hhold
    have hqueued : waiting.map Entry.task = sys.lists.world.store.contents () 0 := by
      rw [hbooked.queued, show (sys.lists.pc receiver).inTurn = [] from
        Point.inTurn_of_none hhold]
      rfl
    have hwaiting : waiting.map (fun entry => some entry.msg) =
        (sys.lists.world.store.contents () 0).map sys.memory.message := by
      rw [← hqueued, List.map_map]
      exact List.map_congr_left fun entry hentry => (hbooked.messages entry hentry).2.2.symm
    have hdata := hcore.layout.data fun task => (idle_of_rest (hrests task)).2.1
    rw [← hbooked.buffered, List.map_map] at hdata
    have hmap := congrArg (List.map some) haccepted
    rw [hinHand, List.nil_append, List.map_append, List.map_append, List.map_append,
      List.map_map, List.map_map, List.map_map] at hmap
    rw [hdata] at hmap
    rw [hsize, ← hwaiting]
    exact hmap
  constructor
  · exact hsound.safe
  · exact hbooked.tidy.distinct
  · exact ⟨_, haccepted.symm⟩
  · refine fun task hpc => hbooked.sent task (Or.inl ?_)
    rw [show sys.lists.pc task = sys.pc task from rfl, hpc]
    rfl
  · exact hkept
  · intro hquiet task hpc
    obtain ⟨hcap, -⟩ := new_spec hnew
    obtain ⟨-, hsize, hnobody⟩ := hquiet.empty hsound hmachine.reachable hcap hpc
    have hkept := hkept hquiet.rests
    have hcontents : sys.lists.world.store.contents () 0 = [] := by
      refine List.eq_nil_iff_forall_not_mem.mpr fun other hmem => ?_
      have hpends := pends_of_mem hcore hsound.coherent (List.mem_append_right _ hmem)
      have hrest := hquiet.rests other
      cases hother : sys.pc other with
      | waiting => exact hnobody other hother
      | entered =>
          rw [hother] at hrest
          cases hrest
      | _ =>
          rw [show sys.lists.pc other = sys.pc other from rfl, hother] at hpends
          cases hpends
    rw [hsize, hcontents, List.range_zero, List.map_nil, List.map_nil, List.append_nil,
      List.append_nil] at hkept
    refine List.map_injective_iff.mpr (Option.some_injective V) ?_
    rw [List.map_map]
    exact hkept

/-- In every run of the channel every message is received at most once, in
order, and none is lost. -/
theorem delivers_of_trace [Nonempty τ] (hnew : Inner.new cap = some inner)
    (htrace : (audited cap inner).Trace history (sys, log)) : Delivers cap sys log := by
  obtain ⟨hmachine, haccounts⟩ := accounts_of_trace hnew htrace
  exact haccounts.delivers hnew hmachine

end Runs

/-- A receiver takes the first of two messages, and the sender of the second one
waits no more. -/
theorem delivers_of_recv :
    ∃ (sys : HeapChannel (Fin 2) ℕ Unit) (log : Log (Fin 2) ℕ), log.received = [5] ∧
      log.accepted.map Entry.msg = [5, 6] ∧ Delivers 1 sys log := by
  let call (task : Fin 2) : Fin 2 × Label (Call ℕ Unit) Unit := (task, .call false ())
  let send (msg : ℕ) : List (Fin 2 × Label (Call ℕ Unit) Unit) :=
    [(0, .start (.send msg)), (0, .own)]
  let recv : List (Fin 2 × Label (Call ℕ Unit) Unit) :=
    [(1, .start (.recv ())), (1, .own), (1, .own)]
  let empty : Inner (Fin 2) ℕ Unit := ⟨fun _ => ⟨false, none⟩, none, 0, fun _ => none, none⟩
  have hrun : ((audited 1 empty).run (send 5 ++ List.replicate 3 (call 0) ++
      List.replicate 3 (0, .own) ++ send 6 ++ List.replicate 4 (call 0) ++ recv ++
        List.replicate 6 (call 1) ++
          [(1, .own), call 1, (1, .step false), call 1, call 1])).map
            (fun result => decide (result.1.2.received = [5] ∧
              result.1.2.accepted.map Entry.msg = [5, 6])) = some true := by decide +kernel
  obtain ⟨⟨⟨sys, log⟩, history⟩, hafter, hbooks⟩ := Option.map_eq_some_iff.mp hrun
  obtain ⟨hreceived, haccepted⟩ := of_decide_eq_true hbooks
  have hnew : Inner.new 1 = some empty := rfl
  exact ⟨sys, log, hreceived, haccepted, delivers_of_trace hnew ⟨_, hafter⟩⟩

end Mpsc

end AsyncMutex

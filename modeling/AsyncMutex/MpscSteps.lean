import AsyncMutex.MpscInvariant

/-!
# The steps of the channel

Every step of `send` and `recv` keeps the invariant of the channel, and it is said
which steps add a value to the slots and which take one out.
-/

namespace AsyncMutex

namespace Mpsc

variable {τ V ω : Type} [DecidableEq τ] {cap : ℕ} {receiver : τ}
  {ledger ledger' : Ledger τ V} {board board' : ChannelBoard τ} {inner inner' : Inner τ V ω}
  {pc : τ → Point τ V ω} {task : τ} {point : Point τ V ω}

/-! ## What a step does to the values in the slots -/

def Ledger.values (ledger : Ledger τ V) : List V :=
  ledger.line.map Ticket.value

/-- A step of `task` from `before` to `after`. -/
def Effect (inner : Inner τ V ω) (task : τ) (before after : Point τ V ω)
    (values values' : List V) : Prop :=
  match before, after with
  | .reserve _, .write _ =>
      ∃ value, inner.message task = some value ∧ values' = values ++ [value]
  | .take, .receive _ _ value => values = value :: values'
  | .receive (.backfill waiter) _ _, _ =>
      ∃ value, inner.message waiter = some value ∧ values' = values ++ [value]
  | _, _ => values' = values

abbrev Coherent [DecidableEq ω] (cap : ℕ) (board : ChannelBoard τ) (pc : τ → Point τ V ω) :
    Prop :=
  (client cap : Client τ _ _ _ _ (Point τ V ω) _).Coherent holds board pc

section Coherence

variable [DecidableEq ω]

/-- Who waits in the futex is at a point of `send` that waits. -/
theorem pends_of_placed (hco : Coherent cap board pc) {place : τ → Place τ Unit (Fin 1)}
    (hplaced : board.Placed place) (hplace : place task ≠ .nowhere) :
    (pc task).pends = true ∧ board.awake task = false := by
  refine ⟨?_, hplaced.asleep task hplace⟩
  have hslot := (hco.fits task).slot
  have hstage := hplaced.waits task hplace
  cases hpc : pc task with
  | entered => rfl
  | waiting => rfl
  | receive point head result =>
      rw [hpc] at hslot
      cases point <;> rcases hstage with h | h | h <;>
        simp [holds, receiveHolds, Slot.Fits, h] at hslot
  | _ =>
      rw [hpc] at hslot
      rcases hstage with h | h | h <;> simp [holds, Slot.Fits, h] at hslot

/-- A waiter in hand sleeps. -/
theorem pends_of_handle (hco : Coherent cap board pc) {waiter : τ}
    (hhandle : board.handle task = some waiter) :
    (pc waiter).pends = true ∧ board.awake waiter = false := by
  obtain ⟨place, hplaced⟩ := hco.placed
  refine pends_of_placed hco hplaced ?_
  rw [(hplaced.places.hand task waiter).mp hhandle]
  intro h
  cases h

omit [DecidableEq ω] in
/-- The head of the loop of `send`. -/
theorem Core.enterLoop (hcore : Core cap receiver ledger board inner pc)
    (hbefore : (pc task).receives = false) (hwrites : (pc task).writes = none)
    (hswap : pc task ≠ .swap) (hwake : ∀ waker, pc task ≠ .wakeRecv waker)
    (hmessage : inner.message task ≠ none) (current : FutexAtom τ SendState) :
    Core cap receiver ledger board inner (Function.update pc task (loopAt cap current)) := by
  unfold loopAt
  split
  case isTrue hroom =>
    exact hcore.sendSame hbefore rfl hwrites rfl hswap hwake rfl rfl rfl rfl (fun _ _ => rfl)
      ⟨hmessage, hroom⟩ (fun h => by cases h)
  case isFalse hfull =>
    exact hcore.sendSame hbefore rfl hwrites rfl hswap hwake rfl rfl rfl rfl (fun _ _ => rfl)
      ⟨hmessage, Nat.le_of_not_lt hfull⟩ (fun h => by cases h)

omit [DecidableEq τ] [DecidableEq ω] in
/-- The head of the loop never changes the slots. -/
theorem effect_loopAt {before : Point τ V ω} (hbefore : before.receives = false)
    (current : FutexAtom τ SendState) (values : List V) :
    Effect inner task before (loopAt cap current) values values := by
  unfold loopAt
  split <;> cases before <;> first | rfl | cases hbefore

/-- An operation of `send`. -/
theorem Core.send_answer (hcore : Core cap receiver ledger board inner pc)
    (hco : Coherent cap board pc) (hreceives : (pc task).receives = false)
    {op : Op τ Unit (Fin 1) SendState} (hcode : code cap (pc task) = .call op)
    {resp : Resp τ SendState} (hstep : board.Step task (.call op) (some resp) board') :
    ∃ pc' ledger', resume cap (pc task) resp = some pc' ∧
      Core cap receiver ledger' board' inner (Function.update pc task pc') ∧
      Effect inner task (pc task) pc' ledger.values ledger'.values := by
  have hpoint := hcore.points task
  cases hpc : pc task with
  | waiter =>
      rw [hpc] at hcode hpoint
      cases hcode
      cases hstep
      refine ⟨.sendLoad, ledger, rfl, ?_, rfl⟩
      refine hcore.sendSame (by rw [hpc]; rfl) rfl (by rw [hpc]; rfl) rfl (by simp [hpc])
        (by simp [hpc]) rfl rfl rfl rfl (fun other hother => ?_) hpoint (fun h => by cases h)
      simp [Board.setAwake, Board.setStage, Board.setOwner, Board.setStore, hother]
  | sendLoad =>
      rw [hpc] at hcode hpoint
      cases hcode
      cases hstep
      refine ⟨_, ledger, rfl, ?_, effect_loopAt rfl _ _⟩
      exact hcore.enterLoop hreceives (by rw [hpc]; rfl) (by simp [hpc])
        (by simp [hpc]) hpoint _
  | reserve current =>
      rw [hpc] at hcode hpoint
      cases hcode
      cases hstep
      case cmpxchgWeak =>
        obtain ⟨value, hvalue, hkeep⟩ := hcore.reserve hpc
        exact ⟨_, _, rfl, hkeep, value, hvalue, by simp [Ledger.values, Ticket.value]⟩
      case cmpxchgWeakFails =>
        refine ⟨_, ledger, rfl, ?_, effect_loopAt rfl _ _⟩
        exact hcore.enterLoop hreceives (by rw [hpc]; rfl) (by simp [hpc])
          (by simp [hpc]) hpoint.1 _
  | wait current =>
      rw [hpc] at hcode hpoint
      cases hcode
      cases hstep
      case cmpxchgWaitWeak =>
        have hstage : board.stage task = .fresh () := by
          have hslot := (hco.fits task).slot
          rw [hpc] at hslot
          exact hslot.1
        obtain ⟨place, hplaced⟩ := hco.placed
        refine ⟨.entered, ledger, rfl, hcore.wait hpc (hplaced.fresh task () hstage).1 ?_, rfl⟩
        intro hhandle
        have hwaits := hplaced.waits task (by
          rw [(hplaced.places.hand receiver task).mp hhandle]
          intro h
          cases h)
        rw [hstage] at hwaits
        rcases hwaits with h | h | h <;> cases h
      case cmpxchgWaitWeakFails =>
        refine ⟨_, ledger, rfl, ?_, effect_loopAt rfl _ _⟩
        exact hcore.enterLoop hreceives (by rw [hpc]; rfl) (by simp [hpc])
          (by simp [hpc]) hpoint.1 _
  | entered =>
      have hcell := hcore.cell task (by rw [hpc]; rfl)
      rw [hpc] at hcode
      cases hcode
      cases hstep
      refine ⟨.waiting, ledger, rfl, ?_, rfl⟩
      exact hcore.sendSame hreceives rfl (by rw [hpc]; rfl) rfl (by simp [hpc])
        (by simp [hpc]) rfl rfl rfl rfl (fun _ _ => rfl) trivial fun _ => hcell
  | receive point head result =>
      rw [hpc] at hreceives
      cases hreceives
  | _ =>
      rw [hpc] at hcode
      cases hcode

omit [DecidableEq ω] in
/-- An operation of `recv`. -/
theorem Core.receive_answer (hcore : Core cap receiver ledger board inner pc) {point : Receive τ}
    {head : ℕ} {result : V}
    (hpc : pc receiver = .receive point head result) {op : Op τ Unit (Fin 1) SendState}
    (hop : receiveOp cap point = some op) {resp : Resp τ SendState}
    (hstep : board.Step receiver (.call op) (some resp) board') :
    ∃ pc', resume cap (pc receiver) resp = some pc' ∧
      Core cap receiver ledger board' inner (Function.update pc receiver pc') ∧
      Effect inner receiver (pc receiver) pc' ledger.values ledger.values := by
  have hpoint := hcore.points receiver
  have hlayout := hcore.layout
  rw [hpc] at hpoint hlayout
  cases point with
  | lock =>
      cases hop
      cases hstep
      rw [hpc]
      refine ⟨_, rfl, ?_, rfl⟩
      exact hcore.receiveOn hpc (fun h => by cases h) (fun h => by cases h) rfl rfl id rfl trivial
  | borrow =>
      cases hop
      cases hstep
      rw [hpc]
      refine ⟨_, rfl, ?_, rfl⟩
      exact hcore.receiveOn hpc (fun h => by cases h) (fun h => by cases h) rfl rfl id rfl trivial
  | pop =>
      cases hop
      cases hstep
      rw [hpc]
      cases hqueue : board.store.queues () 0 with
      | nil =>
          refine ⟨_, rfl, ?_, rfl⟩
          refine hcore.receiveOn hpc (fun h => by cases h) (fun h => by cases h) rfl rfl ?_ rfl ?_
          · simpa [Board.setStore, Board.setHandle, ListStore.setQueue] using Or.inl
          · simp [ReceiveInv, Board.setStore, Board.setHandle, ListStore.setQueue]
      | cons waiter rest =>
          refine ⟨_, rfl, ?_, rfl⟩
          refine hcore.receiveOn hpc (fun h => by cases h) (fun h => by cases h) rfl rfl ?_ rfl
            ⟨?_, ?_⟩
          · simp [hqueue]
          · simp [Board.setStore, Board.setHandle]
          · exact hcore.full (Or.inr (by simp [hqueue]))
  | load waiter =>
      cases hop
      cases hstep
      rw [hpc]
      have hsize : (board.word ()).atom.size = cap := hpoint.2
      refine ⟨.receive (.advance waiter (board.word ())) head result, ?_, ?_, rfl⟩
      · simp [resume, resumeReceive, advanceAt, hsize]
      · exact hcore.receiveOn hpc (fun h => by cases h) (fun h => by cases h) rfl rfl id rfl hpoint
  | advance waiter current =>
      cases hop
      cases hstep
      case cmpxchgWeak =>
        have hkeep := hcore.advance hpc
        rw [hpc]
        exact ⟨_, rfl, hkeep, rfl⟩
      case cmpxchgWeakFails =>
        rw [hpc]
        have hsize : (board.word ()).atom.size = cap := hpoint.2
        refine ⟨.receive (.advance waiter (board.word ())) head result, ?_, ?_, rfl⟩
        · simp [resume, resumeReceive, advanceAt, hsize]
        · exact hcore.receiveOn hpc (fun h => by cases h) (fun h => by cases h) rfl rfl id rfl
            hpoint
  | loadEmpty =>
      cases hop
      cases hstep
      rw [hpc]
      refine ⟨.receive (.enqueue (board.word ())) head result, ?_, ?_, rfl⟩
      · simp [resume, resumeReceive, hcore.enqueueAt_word hlayout.size]
      · exact hcore.receiveOn hpc (fun h => by cases h) (fun h => by cases h) rfl rfl id rfl hpoint
  | enqueue current =>
      cases hop
      cases hstep
      case cmpxchgEnqueueWeak =>
        have hkeep := hcore.enqueue hpc
        rw [hpc]
        exact ⟨_, rfl, hkeep, rfl⟩
      case cmpxchgEnqueueWeakFails =>
        rw [hpc]
        refine ⟨.receive (.enqueue (board.word ())) head result, ?_, ?_, rfl⟩
        · simp [resume, resumeReceive, hcore.enqueueAt_word hlayout.size]
        · exact hcore.receiveOn hpc (fun h => by cases h) (fun h => by cases h) rfl rfl id rfl
            hpoint
  | popAgain =>
      cases hop
      cases hstep
      rw [hpc]
      cases hqueue : board.store.queues () 0 with
      | nil =>
          refine ⟨_, rfl, ?_, rfl⟩
          refine hcore.receiveOn hpc (fun h => by cases h) (fun h => by cases h) ?_ rfl ?_ rfl
            trivial
          · simp [Receive.transit, queued, hqueue]
          · simpa [Board.setStore, Board.setHandle, ListStore.setQueue] using Or.inl
      | cons waiter rest =>
          refine ⟨_, rfl, ?_, rfl⟩
          refine hcore.receiveOn hpc (fun h => by cases h) (fun h => by cases h) ?_ rfl ?_ rfl ?_
          · simp [Receive.transit, queued, hqueue]
          · simp [hqueue]
          · simp [ReceiveInv, Board.setStore, Board.setHandle]
  | backfill waiter => cases hop
  | wake =>
      cases hop
      cases hstep
  | release =>
      cases hop
      cases hstep
      rw [hpc]
      refine ⟨_, rfl, ?_, rfl⟩
      exact hcore.receiveOn hpc (fun h => by cases h) (fun h => by cases h) rfl rfl id rfl trivial
  | unlock =>
      cases hop
      cases hstep
      rw [hpc]
      refine ⟨_, rfl, ?_, rfl⟩
      refine hcore.turn ?_ ?_ rfl ?_ rfl (by simp) rfl rfl rfl rfl rfl rfl rfl trivial
        (fun h => by cases h) (by simp)
      · rw [hpc]
        exact fun _ => rfl
      · rw [hpc]
        rfl
      · rw [hpc]
        rintro other ⟨⟨head', result', heq⟩, -⟩
        cases heq

omit [DecidableEq τ] [DecidableEq ω] in
theorem receives_of_code {point : Point τ V ω} {op : Op τ Unit (Fin 1) SendState}
    (hcode : code cap point = .call op)
    (hop : op = .wake ∨ op = .borrow ()) : ∃ receive head result,
      point = .receive receive head result ∧ (receive = .wake ∨ receive = .borrow) := by
  cases point with
  | receive point head result =>
      refine ⟨point, head, result, rfl, ?_⟩
      rcases hop with rfl | rfl <;> cases point <;> simp [code, receiveOp] at hcode ⊢
  | _ => rcases hop with rfl | rfl <;> cases hcode

omit [DecidableEq τ] [DecidableEq ω] in
theorem code_ne_requeue (point : Point τ V ω) (futex : Unit) :
    code cap point ≠ .call (.requeue futex) := by
  cases point with
  | receive point head result => cases point <;> simp [code, receiveOp]
  | _ => simp [code]

namespace Core

/-- The end of a wake, of a poll or of a drop. -/
theorem go_answer (hcore : Core cap receiver ledger board inner pc)
    (hco : Coherent cap board pc) {resp : Resp τ SendState}
    (hstep : board.Step task .go (some resp) board') :
    ∃ pc', resume cap (pc task) resp = some pc' ∧
      Core cap receiver ledger board' inner (Function.update pc task pc') ∧
      Effect inner task (pc task) pc' ledger.values ledger.values := by
  have hwaiting : board.stage task = .waiting ∨ board.stage task = .dropping →
      pc task = .waiting := by
    intro hstage
    obtain ⟨queue, hslot⟩ := (hco.fits task).slot_of_stage hstage
    cases hpc : pc task with
    | receive point head result =>
        rw [hpc] at hslot
        cases point <;> cases hslot
    | waiting => rfl
    | _ =>
        rw [hpc] at hslot
        cases hslot
  cases hstep with
  | wakeDone hactivity =>
      obtain ⟨point, head, result, hpc, hpoint⟩ :=
        receives_of_code ((hco.fits task).waking hactivity) (Or.inl rfl)
      obtain rfl : task = receiver := hcore.receives task (by rw [hpc]; rfl)
      have hhandle : board.handle task = none := (hco.fits task).busy (by simp [hactivity])
      have hcode := (hco.fits task).waking hactivity
      rcases hpoint with rfl | rfl
      · rw [hpc]
        refine ⟨_, rfl, ?_, rfl⟩
        exact hcore.receiveOn hpc (fun _ => hhandle) (fun h => by cases h) rfl rfl id rfl trivial
      · rw [hpc] at hcode
        cases hcode
  | requeueDone futex hlist hactivity =>
      exact absurd ((hco.fits task).requeueing futex hactivity) (code_ne_requeue _ futex)
  | ready hstage hawake =>
      have hpc := hwaiting (Or.inl hstage)
      rw [hpc]
      refine ⟨_, rfl, ?_, rfl⟩
      exact hcore.sendSame (by rw [hpc]; rfl) rfl (by rw [hpc]; rfl) rfl (by simp [hpc])
        (by simp [hpc]) rfl rfl rfl rfl (fun _ _ => rfl) trivial (fun h => by cases h)
  | cancelWoken hstage hawake =>
      have hpc := hwaiting (Or.inr hstage)
      have hmessage : inner.message task = none :=
        (hcore.cell task (by rw [hpc]; rfl)).mpr (Or.inl hawake)
      rw [hpc]
      refine ⟨_, rfl, ?_, rfl⟩
      refine hcore.sendSame (by rw [hpc]; rfl) rfl (by rw [hpc]; rfl) rfl (by simp [hpc])
        (by simp [hpc]) rfl rfl rfl rfl (fun other hother => ?_) hmessage (fun h => by cases h)
      simp [Board.setAwake, Board.setStage, hother]
  | cancelSleeping hstage =>
      have hpc := hwaiting (Or.inr hstage)
      rw [hpc]
      refine ⟨_, rfl, ?_, rfl⟩
      exact hcore.sendSame (by rw [hpc]; rfl) rfl (by rw [hpc]; rfl) rfl (by simp [hpc])
        (by simp [hpc]) rfl rfl rfl rfl (fun _ _ => rfl) trivial (fun h => by cases h)

theorem answer (hcore : Core cap receiver ledger board inner pc)
    (hco : Coherent cap board pc) {input : Board.Input τ Unit (Fin 1) SendState}
    (hasks : (client cap : Client τ _ _ _ _ (Point τ V ω) _).Asks (pc task) input)
    {resp : Resp τ SendState} (hstep : board.Step task input (some resp) board') :
    ∃ pc' ledger', resume cap (pc task) resp = some pc' ∧
      Core cap receiver ledger' board' inner (Function.update pc task pc') ∧
      Effect inner task (pc task) pc' ledger.values ledger'.values := by
  cases input with
  | call op =>
      have hcode : code cap (pc task) = .call op := hasks op rfl
      cases hreceives : (pc task).receives with
      | false => exact hcore.send_answer hco hreceives hcode hstep
      | true =>
          obtain rfl : task = receiver := hcore.receives task hreceives
          cases hpc : pc task with
          | receive point head result =>
              rw [hpc] at hcode
              cases hop : receiveOp cap point with
              | none => simp [code, hop] at hcode
              | some op' =>
                  simp only [code, hop, Code.call.injEq] at hcode
                  subst hcode
                  obtain ⟨pc', hresume, hkeep⟩ := hcore.receive_answer hpc hop hstep
                  rw [hpc] at hresume hkeep
                  exact ⟨pc', ledger, hresume, hkeep⟩
          | _ =>
              rw [hpc] at hcode hreceives
              first | (cases hreceives; done) | cases hcode
  | go =>
      obtain ⟨pc', hresume, hkeep⟩ := hcore.go_answer hco hstep
      exact ⟨pc', ledger, hresume, hkeep⟩
  | drop => cases hstep

/-- A step that does not answer leaves the slots as they are. -/
theorem quiet (hcore : Core cap receiver ledger board inner pc)
    (hco : Coherent cap board pc) {input : Board.Input τ Unit (Fin 1) SendState}
    (hasks : (client cap : Client τ _ _ _ _ (Point τ V ω) _).Asks (pc task) input)
    (hstep : board.Step task input none board') :
    Core cap receiver ledger board' inner pc := by
  have hreads (hnobody : board.readers () = ∅) : () ∉ (holds (pc receiver)).reads := by
    rw [← (hco.fits receiver).reads, hnobody]
    simp
  have hzero (waiter : τ) : board.store.queue waiter = 0 := Subsingleton.elim _ _
  cases hstep with
  | wake waiter hhandle =>
      have hcode := hasks _ rfl
      obtain ⟨point, head, result, hpc, hpoint⟩ := receives_of_code hcode (Or.inl rfl)
      obtain rfl : task = receiver := hcore.receives task (by rw [hpc]; rfl)
      rcases hpoint with rfl | rfl
      · exact hcore.wake hpc hhandle
      · simp only [client] at hcode
        rw [hpc] at hcode
        cases hcode
  | requeue futex => exact absurd (hasks _ rfl) (code_ne_requeue _ futex)
  | requeueStore => exact hcore.still rfl id (fun _ => rfl) rfl rfl
  | silent => exact hcore
  | drop => exact hcore.still rfl id (fun _ => rfl) rfl rfl
  | dropFlip futex hstage hnobody =>
      refine hcore.still rfl ?_ (fun h => absurd h (hreads hnobody)) rfl rfl
      simp only [Board.flip, Board.setStore, Function.update_self, ListStore.arrivals, hzero]
      rintro (hne | hne)
      · exact absurd rfl hne
      · by_contra hnot
        rw [not_or, not_not, not_not] at hnot
        simp [hnot.1, hnot.2] at hne
  | dropCancel futex hstage hnobody hmem =>
      refine hcore.still rfl ?_ (fun h => absurd h (hreads hnobody)) rfl rfl
      rw [hzero] at hmem
      exact fun _ => Or.inr (List.ne_nil_of_mem hmem)

theorem borrow (hcore : Core cap receiver ledger board inner pc)
    (hco : Coherent cap board pc) {futex : Unit}
    (hcode : code cap (pc task) = .call (.borrow futex)) : board.borrowed futex = none := by
  by_contra hne
  obtain ⟨other, hborrowed⟩ := Option.ne_none_iff_exists'.mp hne
  have hother := ((hco.fits other).borrow futex).mp hborrowed
  obtain ⟨point, head, result, hpc, hpoint⟩ := receives_of_code hcode (Or.inr rfl)
  have htask := hcore.receives task (by rw [hpc]; rfl)
  have hsame : other = receiver := by
    apply hcore.receives
    cases hpc' : pc other with
    | receive point' head' result' => rfl
    | _ =>
        rw [hpc'] at hother
        cases hother
  rw [hsame, ← htask, hpc] at hother
  rw [hpc] at hcode
  rcases hpoint with rfl | rfl
  · cases hcode
  · cases hother

/-- A step on the memory. -/
theorem own (hcore : Core cap receiver ledger board inner pc) (hcap : 0 < cap)
    (hco : Coherent cap board pc) (hcode : code cap (pc task) = .own) :
    ∃ inner' pc' ledger', act cap task inner (pc task) = some (inner', pc') ∧
      Core cap receiver ledger' board inner' (Function.update pc task pc') ∧
      Effect inner task (pc task) pc' ledger.values ledger'.values := by
  have hpoint := hcore.points task
  have hreceiver (hreceives : (pc task).receives = true) : task = receiver :=
    hcore.receives task hreceives
  cases hpc : pc task with
  | create msg =>
      refine ⟨_, _, ledger, rfl, ?_, rfl⟩
      refine hcore.sendOn (by rw [hpc]; rfl) rfl (by rw [hpc]; rfl) rfl (by simp [hpc])
        (by simp [hpc]) rfl rfl rfl rfl (fun _ _ => rfl) ?_ (fun h => by cases h)
      simp [PointInv, Inner.setMessage]
  | write selected =>
      obtain ⟨value, hvalue, hkeep⟩ := hcore.write hpc
      exact ⟨_, _, ledger, by simp only [act, hvalue]; rfl, hkeep, rfl⟩
  | fill selected =>
      obtain ⟨offset, value, hentry, hkeep⟩ := hcore.fill hpc
      refine ⟨_, _, _, rfl, hkeep, ?_⟩
      -- the value does not change with its ticket
      change (ledger.line.set offset (.stored value)).map Ticket.value =
        ledger.line.map Ticket.value
      have hvalue : (ledger.line.map Ticket.value)[offset]? = some value := by
        rw [List.getElem?_map, hentry]
        rfl
      obtain ⟨hlt, heq⟩ := List.getElem?_eq_some_iff.mp hvalue
      rw [List.map_set]
      change (ledger.line.map Ticket.value).set offset value = _
      rw [← heq, List.set_getElem_self]
  | swap =>
      cases hstate : inner.recvState with
      | none =>
          refine ⟨inner, .ended .sent, ledger, by simp only [act, hstate], ?_, rfl⟩
          exact hcore.swapDirty hpc hstate
      | some waker =>
          refine ⟨{ inner with recvState := none }, .wakeRecv waker, ledger,
            by simp only [act, hstate], ?_, rfl⟩
          exact hcore.swapWaiting hpc hstate
  | wakeRecv waker => exact ⟨_, _, ledger, rfl, hcore.wakeRecv hpc, rfl⟩
  | cancelWoken =>
      rw [hpc] at hpoint
      have hnone : inner.message task = none := hpoint
      refine ⟨inner, .idle, ledger, by simp [act, hnone], ?_, rfl⟩
      exact hcore.sendSame (by rw [hpc]; rfl) rfl (by rw [hpc]; rfl) rfl (by simp [hpc])
        (by simp [hpc]) rfl rfl rfl rfl (fun _ _ => rfl) trivial (fun h => by cases h)
  | cancelSleeping =>
      refine ⟨_, _, ledger, rfl, ?_, rfl⟩
      exact hcore.sendOn (by rw [hpc]; rfl) rfl (by rw [hpc]; rfl) rfl (by simp [hpc])
        (by simp [hpc]) rfl rfl rfl rfl (fun _ _ => rfl) trivial (fun h => by cases h)
  | check waker =>
      obtain rfl := hreceiver (by rw [hpc]; rfl)
      by_cases hfilled : (inner.buckets inner.recvHead).filled = true
      · refine ⟨{ inner with lastWaker := some waker }, .take, ledger, ?_, ?_, rfl⟩
        · simp [act, hfilled]
        · exact hcore.turnApart (by rw [hpc]; rfl) rfl rfl (by simp) rfl rfl rfl hfilled
            (fun h => by cases h) (by simp)
      · refine ⟨{ inner with lastWaker := some waker }, .register waker, ledger, ?_, ?_, rfl⟩
        · simp [act, hfilled]
        · exact hcore.turnApart (by rw [hpc]; rfl) rfl rfl (by simp) rfl rfl rfl
            (fun last hlast => (Option.some.inj hlast).symm) (fun h => by cases h) (by simp)
  | register waker =>
      obtain rfl := hreceiver (by rw [hpc]; rfl)
      rw [hpc] at hpoint
      refine ⟨_, _, ledger, rfl, ?_, rfl⟩
      refine hcore.turnApart (by rw [hpc]; rfl) rfl rfl (by simp) rfl rfl rfl trivial
        (fun h => by cases h) (fun _ last hlast => Or.inl ?_)
      rw [hpoint last hlast]
  | recheck =>
      obtain rfl := hreceiver (by rw [hpc]; rfl)
      by_cases hfilled : (inner.buckets inner.recvHead).filled = true
      · refine ⟨inner, .unregister, ledger, by simp [act, hfilled], ?_, rfl⟩
        exact hcore.turnApart (by rw [hpc]; rfl) rfl rfl (by simp) rfl rfl rfl hfilled
          (fun h => by cases h) (by simp)
      · refine ⟨inner, .blocked, ledger, by simp [act, hfilled], ?_, rfl⟩
        refine hcore.turnApart (by rw [hpc]; rfl) rfl rfl (by simp) rfl rfl rfl trivial
          (fun _ _ hfill => absurd hfill hfilled) fun _ waker hwaker => ?_
        exact (hcore.last (Or.inl hpc) waker hwaker).imp_right fun hexists =>
          exists_update hexists (by simp [hpc])
  | unregister =>
      obtain rfl := hreceiver (by rw [hpc]; rfl)
      rw [hpc] at hpoint
      refine ⟨_, _, ledger, rfl, ?_, rfl⟩
      exact hcore.turnApart (by rw [hpc]; rfl) rfl rfl (by simp) rfl rfl rfl hpoint
        (fun h => by cases h) (by simp)
  | take =>
      obtain rfl := hreceiver (by rw [hpc]; rfl)
      obtain ⟨value, rest, hline, hdata, hkeep⟩ := hcore.take hcap hpc
      refine ⟨_, _, _, by simp only [act, hdata]; rfl, hkeep, ?_⟩
      change ledger.values = value :: Ledger.values ⟨ledger.base + 1, rest⟩
      simp [Ledger.values, hline, Ticket.value]
  | receive point head result =>
      obtain rfl := hreceiver (by rw [hpc]; rfl)
      cases point with
      | backfill waiter =>
          rw [hpc] at hpoint
          obtain ⟨hwaiter, hasleep⟩ := pends_of_handle hco hpoint
          obtain ⟨value, hvalue, hkeep⟩ := hcore.backfill hpc hwaiter hasleep
          refine ⟨_, _, _, by simp only [act, hvalue]; rfl, hkeep, value, hvalue, ?_⟩
          simp [Ledger.values, Ticket.value]
      | _ =>
          rw [hpc] at hcode
          cases hcode
  | _ =>
      rw [hpc] at hcode
      cases hcode

omit [DecidableEq ω] in
/-- A call begins. -/
theorem start (hcore : Core cap receiver ledger board inner pc) {call : Call V ω}
    (hstart : Mpsc.start (pc task) call = some point)
    (halone : ∀ task' other, (Function.update pc task point task').receives = true →
      (Function.update pc task point other).receives = true → task' = other) :
    ∃ receiver', Core cap receiver' ledger board inner (Function.update pc task point) ∧
      Effect inner task (pc task) point ledger.values ledger.values := by
  unfold Mpsc.start at hstart
  have hrecv {waker : ω} (hpoint : point = .check waker) (hbefore : (pc task).apart = true) :
      Core cap task ledger board inner (Function.update pc task point) := by
    have hadopt : Core cap task ledger board inner pc := by
      apply hcore.adopt
      intro other hother
      by_contra hne
      refine hne (halone other task ?_ ?_)
      · rw [Function.update_of_ne hne, hother]
      · rw [Function.update_self, hpoint]
        rfl
    subst hpoint
    exact hadopt.turnApart hbefore rfl rfl (by simp) rfl rfl rfl trivial (fun h => by cases h)
      (by simp)
  split at hstart <;> cases hstart
  case h_1 hpc =>
    refine ⟨receiver, ?_, by rw [hpc]; rfl⟩
    exact hcore.sendSame (by rw [hpc]; rfl) rfl (by rw [hpc]; rfl) rfl (by simp [hpc])
      (by simp [hpc]) rfl rfl rfl rfl (fun _ _ => rfl) trivial (fun h => by cases h)
  case h_2 hpc =>
    refine ⟨receiver, ?_, by rw [hpc]; rfl⟩
    exact hcore.sendSame (by rw [hpc]; rfl) rfl (by rw [hpc]; rfl) rfl (by simp [hpc])
      (by simp [hpc]) rfl rfl rfl rfl (fun _ _ => rfl) trivial (fun h => by cases h)
  case h_6 hpc =>
    obtain rfl : task = receiver := hcore.receives task (by rw [hpc]; rfl)
    refine ⟨task, ?_, by rw [hpc]; rfl⟩
    exact hcore.turnApart (by rw [hpc]; rfl) rfl rfl (by simp) rfl rfl rfl trivial
      (fun h => by cases h) (by simp)
  all_goals
    rename_i hpc
    exact ⟨task, hrecv rfl (by rw [hpc]; rfl), by rw [hpc]; rfl⟩

end Core

end Coherence

/-! ## The whole channel -/

def Inv (cap : ℕ) (board : ChannelBoard τ) (inner : Inner τ V ω) (pc : τ → Point τ V ω) :
    Prop :=
  Nonempty τ → ∃ receiver ledger, Core cap receiver ledger board inner pc

section

variable [DecidableEq ω] [Fintype τ]

/-- The channel never panics of itself and keeps its invariant. -/
theorem invariant (hcap : 0 < cap) :
    (client cap : Client τ _ _ _ _ (Point τ V ω) _).Invariant holds usage (Inv cap) where
  borrow _ _ _ task _ hco hinv hcode := by
    obtain ⟨receiver, ledger, hcore⟩ := hinv ⟨task⟩
    exact hcore.borrow hco hcode
  start board inner pc task call pc' hco hinv hcode hstart hwithin := by
    obtain ⟨receiver, ledger, hcore⟩ := hinv ⟨task⟩
    obtain ⟨receiver', hkeep, -⟩ := hcore.start hstart (of_decide_eq_true hwithin)
    exact fun _ => ⟨receiver', ledger, hkeep⟩
  quiet _ _ _ _ _ _ hco hinv hasks _ hstep hsome := by
    obtain ⟨receiver, ledger, hcore⟩ := hinv hsome
    exact ⟨receiver, ledger, hcore.quiet hco hasks hstep⟩
  answer _ _ _ task _ _ _ hco hinv hasks hstep := by
    obtain ⟨receiver, ledger, hcore⟩ := hinv ⟨task⟩
    obtain ⟨pc', ledger', hresume, hkeep, -⟩ := hcore.answer hco hasks hstep
    exact ⟨pc', hresume, fun _ _ => ⟨receiver, ledger', hkeep⟩⟩
  own _ _ _ task hco hinv hcode := by
    obtain ⟨receiver, ledger, hcore⟩ := hinv ⟨task⟩
    obtain ⟨inner', pc', ledger', hact, hkeep, -⟩ := hcore.own hcap hco hcode
    exact ⟨inner', pc', hact, fun _ _ => ⟨receiver, ledger', hkeep⟩⟩

end

end Mpsc

end AsyncMutex

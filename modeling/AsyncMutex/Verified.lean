import AsyncMutex.Holding

/-!
# Verifying a client

`Typed` says that the program points of a client determine what its tasks
hold.  With `Invariant` the client proves that no step panics and that a
predicate on the board, the memory and the program points holds in every
reachable state.
-/

namespace AsyncMutex

namespace Client

variable {τ φ κ α ω M L C : Type} [DecidableEq τ] [DecidableEq φ]
  [DecidableEq κ] [DecidableEq α] [DecidableEq ω]

/-- What a task holds follows from its program point. -/
structure Typed (client : Client τ φ κ α M L C) (holds : L → Holding φ κ) :
    Prop where
  idle : holds client.idle = {}
  start : ∀ pc call pc', client.code pc = .rest →
    client.start pc call = some pc' → holds pc' = holds pc
  allows : ∀ pc op, client.code pc = .call op → (holds pc).Allows op
  resume : ∀ pc op resp pc', client.code pc = .call op → op.Answers resp →
    client.resume pc resp = some pc' →
      holds pc' = (holds pc).after op resp ∨
        holds pc' = ((holds pc).after op resp).forget
  waits : ∀ pc queue, (holds pc).slot = .waiting queue → client.code pc = .rest
  future : ∀ pc queue resp pc', (holds pc).slot = .waiting queue →
    resp = .ready ∨ resp = .cancelWoken ∨ resp = .cancelSleeping →
      client.resume pc resp = some pc' → holds pc' = { holds pc with slot := .free }
  own : ∀ task memory pc memory' pc', client.code pc = .own →
    client.act task memory pc = some (memory', pc') → holds pc' = holds pc

/-- The board and the program points of all tasks agree. -/
structure Coherent (client : Client τ φ κ α M L C) (holds : L → Holding φ κ)
    (board : Board τ φ κ α) (pc : τ → L) : Prop where
  placed : ∃ place, board.Placed place
  fits : ∀ task, (holds (pc task)).Fits board (client.code (pc task)) task

/-- The input of a step is the operation at the program point, if any. -/
def Asks (client : Client τ φ κ α M L C) (pc : L) (input : Board.Input τ φ κ α) :
    Prop :=
  ∀ op, input = .call op → client.code pc = .call op

/-- A predicate on the board, the memory and the program points that every
step of the client within some bounds preserves; and the steps that it makes
safe. -/
structure Invariant (client : Client τ φ κ α M L C) (holds : L → Holding φ κ)
    (usage : Usage τ L) (inv : Board τ φ κ α → M → (τ → L) → Prop)
    (within : Board τ φ κ α → (τ → L) → Prop := fun _ pc => usage.within pc = true) :
    Prop where
  borrow : ∀ board memory pc task futex, client.Coherent holds board pc →
    inv board memory pc → client.code (pc task) = .call (.borrow futex) →
      board.borrowed futex = none
  start : ∀ board memory pc task call pc', client.Coherent holds board pc →
    inv board memory pc → client.code (pc task) = .rest →
      client.start (pc task) call = some pc' →
        within board (Function.update pc task pc') →
          inv board memory (Function.update pc task pc')
  quiet : ∀ board memory pc task input board', client.Coherent holds board pc →
    inv board memory pc → client.Asks (pc task) input →
      (input = .drop → usage.mayDrop (pc task) (board.awake task) = true) →
        board.Step task input none board' → inv board' memory pc
  answer : ∀ board memory pc task input resp board',
    client.Coherent holds board pc → inv board memory pc →
      client.Asks (pc task) input → board.Step task input (some resp) board' →
        ∃ pc', client.resume (pc task) resp = some pc' ∧
          (within board' (Function.update pc task pc') →
            inv board' memory (Function.update pc task pc'))
  own : ∀ board memory pc task, client.Coherent holds board pc →
    inv board memory pc → client.code (pc task) = .own →
      ∃ memory' pc', client.act task memory (pc task) = some (memory', pc') ∧
        (within board (Function.update pc task pc') →
          inv board memory' (Function.update pc task pc'))

omit [DecidableEq α] in
/-- Another form of an invariant, within other bounds. -/
theorem Invariant.imp {client : Client τ φ κ α M L C} {holds : L → Holding φ κ}
    {usage : Usage τ L} {inv inv' : Board τ φ κ α → M → (τ → L) → Prop}
    {within within' : Board τ φ κ α → (τ → L) → Prop}
    (hinv : client.Invariant holds usage inv within)
    (hfrom : ∀ board memory pc, inv' board memory pc → inv board memory pc)
    (hto : ∀ board memory pc, inv board memory pc → inv' board memory pc)
    (hwithin : ∀ board pc, within' board pc → within board pc) :
    client.Invariant holds usage inv' within' where
  borrow board memory pc task futex hco hkeep :=
    hinv.borrow board memory pc task futex hco (hfrom _ _ _ hkeep)
  start board memory pc task call pc' hco hkeep hcode hstart hin :=
    hto _ _ _ (hinv.start board memory pc task call pc' hco (hfrom _ _ _ hkeep) hcode hstart
      (hwithin _ _ hin))
  quiet board memory pc task input board' hco hkeep hasks hdrop hstep :=
    hto _ _ _ (hinv.quiet board memory pc task input board' hco (hfrom _ _ _ hkeep) hasks hdrop
      hstep)
  answer board memory pc task input resp board' hco hkeep hasks hstep := by
    obtain ⟨pc', hresume, hnext⟩ :=
      hinv.answer board memory pc task input resp board' hco (hfrom _ _ _ hkeep) hasks hstep
    exact ⟨pc', hresume, fun hin => hto _ _ _ (hnext (hwithin _ _ hin))⟩
  own board memory pc task hco hkeep hcode := by
    obtain ⟨memory', pc', hact, hnext⟩ :=
      hinv.own board memory pc task hco (hfrom _ _ _ hkeep) hcode
    exact ⟨memory', pc', hact, fun hin => hto _ _ _ (hnext (hwithin _ _ hin))⟩

end Client

namespace Board.Step

variable {τ φ κ α : Type} [DecidableEq τ] [DecidableEq φ] [DecidableEq κ]
  {board board' : Board τ φ κ α} {task : τ} {resp : Resp τ α}

theorem answers {op : Op τ φ κ α}
    (hstep : board.Step task (.call op) (some resp) board') : op.Answers resp := by
  cases hstep <;> simp [Op.Answers]

theorem resp_ne {input : Board.Input τ φ κ α}
    (hstep : board.Step task input (some resp) board') :
    resp ≠ .panic ∧ resp ≠ .misuse := by
  cases hstep <;> exact ⟨by simp, by simp⟩

/-- Only a successful compare-exchange changes an atom. -/
theorem atom {input : Board.Input τ φ κ α} {resp : Option (Resp τ α)}
    (hstep : board.Step task input resp board') :
    board'.atom = board.atom ∨ ∃ futex new, resp = some .success ∧
      board'.atom = Function.update board.atom futex new ∧
        (input = .call (.cmpxchgWeak futex (board.word futex) new) ∨
          input = .call (.cmpxchgWaitWeak futex (board.word futex) new) ∨
            input = .call (.cmpxchgEnqueueWeak futex (board.word futex) new)) := by
  cases hstep with
  | cmpxchgWeak futex new => exact Or.inr ⟨futex, new, rfl, rfl, Or.inl rfl⟩
  | cmpxchgWaitWeak futex new =>
      exact Or.inr ⟨futex, new, rfl, rfl, Or.inr (Or.inl rfl)⟩
  | cmpxchgEnqueueWeak futex new =>
      exact Or.inr ⟨futex, new, rfl, rfl, Or.inr (Or.inr rfl)⟩
  | _ => exact Or.inl rfl

end Board.Step

namespace System

variable {τ φ κ α ω M L C : Type} [DecidableEq τ] [DecidableEq φ]
  [DecidableEq κ] [DecidableEq α] [DecidableEq ω]
  {client : Client τ φ κ α M L C} {holds : L → Holding φ κ} {usage : Usage τ L}
  {inv : Board τ φ κ α → M → (τ → L) → Prop} {queue : κ} {atom : φ → α}
  {futex : φ} {memory : M}

/-- The state of a verified client. -/
structure Verified (client : Client τ φ κ α M L C) (holds : L → Holding φ κ)
    (inv : Board τ φ κ α → M → (τ → L) → Prop) (sys : ListSystem τ φ κ α ω M L) :
    Prop where
  safe : sys.panicked = false
  placed : ∃ place, World.Inv sys.world place
  fits : ∀ task,
    (holds (sys.pc task)).Fits sys.world.board (client.code (sys.pc task)) task
  inv : inv sys.world.board sys.memory sys.pc

namespace Verified

variable {sys : ListSystem τ φ κ α ω M L} {within : Board τ φ κ α → (τ → L) → Prop}

omit [DecidableEq τ] [DecidableEq φ] [DecidableEq κ] [DecidableEq α] [DecidableEq ω] in
theorem coherent (hsys : sys.Verified client holds inv) :
    client.Coherent holds sys.world.board sys.pc := by
  obtain ⟨place, hplace⟩ := hsys.placed
  exact ⟨⟨place, hplace.placed⟩, hsys.fits⟩

/-- A step of a world, seen on the board. -/
theorem step_board (hsys : sys.Verified client holds inv)
    (htyped : client.Typed holds) (hinv : client.Invariant holds usage inv within)
    {task : τ} {label : Label C ω} {act : Act τ φ κ α ω}
    {outcome : Outcome (ListStore τ φ κ) τ φ α ω}
    (hrequest : client.request (sys.pc task) label = some act)
    (hstep : sys.world.step task act = some outcome) :
    (∀ op, World.Inv.input act = .call op →
        client.code (sys.pc task) = .call op ∧
          sys.world.board.activity task = .none ∧
          sys.world.board.Ready task op) ∧
      sys.world.board.Step task (World.Inv.input act) outcome.resp
        outcome.world.board := by
  obtain ⟨place, hplace⟩ := hsys.placed
  have hcalls : ∀ op spurious waker, act = .call op spurious waker →
      client.code (sys.pc task) = .call op ∧
        sys.world.board.activity task = .none ∧
        sys.world.board.Ready task op := by
    rintro op spurious waker rfl
    have hcode : client.code (sys.pc task) = .call op := by
      cases label <;> simp only [Client.request] at hrequest
      case call =>
        split at hrequest <;> cases hrequest
        assumption
      all_goals cases hrequest
    have hactivity : sys.world.board.activity task = .none := by
      simp only [World.step] at hstep
      split at hstep
      case isTrue hrunning => simp [World.board, hrunning.1, Busy.activity]
      case isFalse => cases hstep
    refine ⟨hcode, hactivity, (hsys.fits task).ready hactivity
      (htyped.allows _ op hcode) ?_⟩
    rintro futex rfl
    exact hinv.borrow _ _ _ task futex hsys.coherent hsys.inv hcode
  refine ⟨fun op hop => ?_, hplace.step_board
    (fun op spurious waker hact => (hcalls op spurious waker hact).2.2) hstep⟩
  cases act with
  | call op' spurious waker =>
      cases hop
      exact hcalls op spurious waker rfl
  | poll => cases hop
  | drop => cases hop
  | step => cases hop

/-- A step of a world that does not answer. -/
theorem quiet (hsys : sys.Verified client holds inv) (htyped : client.Typed holds)
    (hinv : client.Invariant holds usage inv within) {task : τ} {label : Label C ω}
    {act : Act τ φ κ α ω} {outcome : Outcome (ListStore τ φ κ) τ φ α ω}
    (hrequest : client.request (sys.pc task) label = some act)
    (hstep : sys.world.step task act = some outcome) (hresp : outcome.resp = none)
    (hallowed : sys.allowed usage task label sys.pc = true) :
    Verified client holds inv { sys with world := outcome.world } := by
  obtain ⟨hcalls, hboard⟩ := hsys.step_board htyped hinv hrequest hstep
  rw [hresp] at hboard
  obtain ⟨place, hplace⟩ := hsys.placed
  have hdrop : World.Inv.input act = .drop →
      usage.mayDrop (sys.pc task) (sys.world.board.awake task) = true := by
    intro hinput
    cases label <;> simp only [Client.request] at hrequest
    case drop => exact (Bool.and_eq_true_iff.mp hallowed).2
    case call =>
      split at hrequest <;> cases hrequest
      cases hinput
    case poll =>
      cases hrequest
      cases hinput
    case step =>
      cases hrequest
      cases hinput
    all_goals cases hrequest
  refine ⟨hsys.safe, hplace.step hstep, fun other => ?_, ?_⟩
  · by_cases hother : other = task
    · subst hother
      exact (hsys.fits other).quiet
        (fun op hop => ⟨(hcalls op hop).1, (hcalls op hop).2.1,
          htyped.allows _ op (hcalls op hop).1⟩) hboard
    · exact (hsys.fits other).other hother (fun op hop => (hcalls op hop).2.2) hboard
  · exact hinv.quiet _ _ _ task _ _ hsys.coherent hsys.inv
      (fun op hop => (hcalls op hop).1) hdrop hboard

/-- The task at hand goes on, and all others keep what they hold. -/
theorem answer (hsys : sys.Verified client holds inv) (htyped : client.Typed holds)
    (hinv : client.Invariant holds usage inv within) {task : τ} {label : Label C ω}
    {act : Act τ φ κ α ω} {outcome : Outcome (ListStore τ φ κ) τ φ α ω}
    (hrequest : client.request (sys.pc task) label = some act)
    (hstep : sys.world.step task act = some outcome) {resp : Resp τ α}
    (hresp : outcome.resp = some resp) :
    ∃ pc', client.goOn (sys.pc task) resp = some pc' ∧
      (within outcome.world.board (Function.update sys.pc task pc') →
        Verified client holds inv
          { sys.setPc task pc' with world := outcome.world }) := by
  obtain ⟨hcalls, hboard⟩ := hsys.step_board htyped hinv hrequest hstep
  rw [hresp] at hboard
  obtain ⟨place, hplace⟩ := hsys.placed
  obtain ⟨pc', hresume, hkeep⟩ := hinv.answer _ _ _ task _ resp _ hsys.coherent
    hsys.inv (fun op hop => (hcalls op hop).1) hboard
  have hgo : client.goOn (sys.pc task) resp = some pc' := by
    obtain ⟨hpanic, hmisuse⟩ := hboard.resp_ne
    rw [← hresume]
    cases resp <;> first | rfl | exact absurd rfl hpanic | exact absurd rfl hmisuse
  refine ⟨pc', hgo, fun hwithin => ⟨hsys.safe, hplace.step hstep, fun other => ?_,
    hkeep hwithin⟩⟩
  simp only [setPc, Function.update_apply]
  split
  case isFalse hother =>
    exact (hsys.fits other).other hother (fun op hop => (hcalls op hop).2.2) hboard
  case isTrue hother =>
    subst hother
    cases hinput : World.Inv.input act with
    | call op =>
        rw [hinput] at hboard
        obtain ⟨hcode, hactivity, -⟩ := hcalls op hinput
        have hfits := (hsys.fits other).call hactivity (htyped.allows _ op hcode)
          hboard (client.code pc')
        rcases htyped.resume _ op resp pc' hcode hboard.answers hresume with
          hholds | hholds <;> rw [hholds]
        · exact hfits
        · exact hfits.forget
    | go =>
        rw [hinput] at hboard
        rcases (hsys.fits other).answer (htyped.allows _) (htyped.waits _) hboard
          (client.code pc') with ⟨op, hcode, hanswers, hfits⟩ | ⟨hfinal, ⟨queue, hslot⟩, hfits⟩
        · rcases htyped.resume _ op resp pc' hcode hanswers hresume with
            hholds | hholds <;> rw [hholds]
          · exact hfits
          · exact hfits.forget
        · rw [htyped.future _ queue resp pc' hslot hfinal hresume]
          exact hfits
    | drop =>
        rw [hinput] at hboard
        cases hboard

omit [DecidableEq φ] [DecidableEq κ] [DecidableEq α] [DecidableEq ω] in
/-- A step that leaves the world as it is. -/
theorem local_step (hsys : sys.Verified client holds inv)
    {task : τ} {pc' : L} {memory' : M} (hholds : holds pc' = holds (sys.pc task))
    (hcode : ∀ op, client.code (sys.pc task) ≠ .call op)
    (hkeep : inv sys.world.board memory' (Function.update sys.pc task pc')) :
    Verified client holds inv { sys.setPc task pc' with memory := memory' } := by
  refine ⟨hsys.safe, hsys.placed, fun other => ?_, hkeep⟩
  simp only [setPc, Function.update_apply]
  split
  case isFalse => exact hsys.fits other
  case isTrue hother =>
    subst hother
    rw [hholds]
    exact { hsys.fits other with
      waking := fun hactivity => absurd ((hsys.fits other).waking hactivity) (hcode _)
      requeueing := fun futex hactivity =>
        absurd ((hsys.fits other).requeueing futex hactivity) (hcode _) }

/-- A step that stays within the bounds. -/
theorem step_within (hsys : sys.Verified client holds inv) (htyped : client.Typed holds)
    (hinv : client.Invariant holds usage inv within) {task : τ} {label : Label C ω}
    {result : ListSystem τ φ κ α ω M L × List (Mark τ φ α ω L C)}
    (hnext : sys.next client task label = some result)
    (hallowed : sys.allowed usage task label result.1.pc = true)
    (hwithin : within result.1.world.board result.1.pc) :
    result.1.Verified client holds inv := by
  obtain ⟨-, hstep⟩ := next_spec hnext
  cases hstep with
  | start hcode hstart =>
      refine hsys.local_step (htyped.start _ _ _ hcode hstart) (by simp [hcode]) ?_
      exact hinv.start _ _ _ task _ _ hsys.coherent hsys.inv hcode hstart hwithin
  | act hcode hact =>
      refine hsys.local_step (htyped.own _ _ _ _ _ hcode hact) (by simp [hcode]) ?_
      obtain ⟨memory', pc', hact', hkeep⟩ :=
        hinv.own _ _ _ task hsys.coherent hsys.inv hcode
      rw [hact] at hact'
      cases hact'
      exact hkeep hwithin
  | fail hcode hact =>
      obtain ⟨memory', pc', hact', -⟩ :=
        hinv.own _ _ _ task hsys.coherent hsys.inv hcode
      rw [hact] at hact'
      cases hact'
  | @move _ act outcome hrequest hstep =>
      cases hresp : outcome.resp with
      | none =>
          simp only [settle, hresp] at hallowed ⊢
          exact hsys.quiet htyped hinv hrequest hstep hresp hallowed
      | some resp =>
          obtain ⟨pc', hgo, hkeep⟩ := hsys.answer htyped hinv hrequest hstep hresp
          simp only [settle, hresp, hgo] at hwithin ⊢
          exact hkeep hwithin

theorem step (hsys : sys.Verified client holds inv) (htyped : client.Typed holds)
    (hinv : client.Invariant holds usage inv) {task : τ} {label : Label C ω}
    {result : ListSystem τ φ κ α ω M L × List (Mark τ φ α ω L C)}
    (hnext : sys.next client task label = some result)
    (hallowed : sys.allowed usage task label result.1.pc = true) :
    result.1.Verified client holds inv :=
  hsys.step_within htyped hinv hnext hallowed (Bool.and_eq_true_iff.mp hallowed).1

/-- The board before anything happens. -/
theorem initial (htyped : client.Typed holds)
    (hinit : inv (World.initial (ListStore.empty queue) atom futex :
      ListWorld τ φ κ α ω).board memory fun _ => client.idle) :
    Verified client holds inv
      (machine client usage (ListStore.empty queue) atom futex memory :
        Machine (ListSystem τ φ κ α ω M L) _ (Mark τ φ α ω L C)).init := by
  refine ⟨rfl, ⟨_, World.Inv.initial queue atom futex⟩, fun task => ?_, hinit⟩
  rw [show (machine client usage (ListStore.empty queue) atom futex memory :
    Machine (ListSystem τ φ κ α ω M L) _ (Mark τ φ α ω L C)).init.pc task =
      client.idle from rfl, htyped.idle]
  constructor <;>
    simp [machine, World.initial, World.board, Slot.Fits, Phase.stage,
      Busy.activity, ListStore.empty]

/-- A verified client never panics and keeps its invariant. -/
theorem of_reachable (htyped : client.Typed holds)
    (hinv : client.Invariant holds usage inv)
    (hinit : inv (World.initial (ListStore.empty queue) atom futex :
      ListWorld τ φ κ α ω).board memory fun _ => client.idle)
    (hreach : (machine client usage (ListStore.empty queue) atom futex memory :
      Machine (ListSystem τ φ κ α ω M L) _ (Mark τ φ α ω L C)).Reachable sys) :
    sys.Verified client holds inv := by
  refine hreach.invariant (motive := fun sys => sys.Verified client holds inv)
    (initial htyped hinit) ?_
  rintro sys ⟨task, label⟩ next marks - hsys hnext
  obtain ⟨hnext, hallowed⟩ := machine_next.mp hnext
  exact hsys.step htyped hinv hnext hallowed

/-- The lists of a client that stays within the bounds of its invariant. -/
theorem of_traceWithin [Fintype τ] (htyped : client.Typed holds)
    (hinv : client.Invariant holds usage inv within)
    (hinit : inv (World.initial (ListStore.empty queue) atom futex :
      ListWorld τ φ κ α ω).board memory fun _ => client.idle)
    {region : HeapSystem τ φ κ α ω M L → Prop}
    (hregion : ∀ sys, region sys → within sys.lists.world.board sys.pc)
    {history : List (Mark τ φ α ω L C)} {sys : HeapSystem τ φ κ α ω M L}
    (htrace : (machine client usage (HeapStore.empty queue) atom futex memory :
      Machine (HeapSystem τ φ κ α ω M L) _ _).TraceWithin region history sys) :
    sys.lists.Verified client holds inv := by
  induction htrace with
  | init =>
      rw [lists_init]
      exact initial htyped hinit
  | @step past marks before after label hbefore hnext hafter hsys =>
      have hlists := next_lists hbefore.trace hnext
      obtain ⟨hnext', hallowed⟩ := machine_next.mp hlists
      exact hsys.step_within htyped hinv hnext' hallowed (hregion after hafter)

omit [DecidableEq τ] [DecidableEq φ] [DecidableEq κ] [DecidableEq α] [DecidableEq ω] in
/-- A longer operation runs only at the program point that asked for it. -/
theorem busy_of_rest (hsys : sys.Verified client holds inv) {task : τ}
    (hrest : client.code (sys.pc task) = .rest) : sys.world.busy task = .none := by
  have hfits := hsys.fits task
  have hnone : sys.world.board.activity task = .none := by
    cases hactivity : sys.world.board.activity task with
    | none => rfl
    | waking =>
        have hcode := hfits.waking hactivity
        rw [hrest] at hcode
        cases hcode
    | requeueing futex =>
        have hcode := hfits.requeueing futex hactivity
        rw [hrest] at hcode
        cases hcode
  cases hbusy : sys.world.busy task with
  | none => rfl
  | _ => simp [World.board, Busy.activity, hbusy] at hnone

end Verified

end System

end AsyncMutex

import AsyncMutex.Mpsc

/-!
# Dropping the channel

`Inner::drop` panics when it finds the waker of a receiver.  A `recv` that
returns leaves none behind, also when a send overtakes it.  One that is dropped
while it is pending does, until a send looks for the waker.
-/

namespace AsyncMutex

namespace Mpsc

variable {τ V ω : Type}

/-- `Drop for Inner`; `none` is its panic. -/
def Inner.drop (inner : Inner τ V ω) : Option Unit :=
  match inner.recvState with
  | some _ => none
  | none => some ()

/-- What a step says about the waker that `recv` has left behind. -/
def leave (left : Bool) : ChannelMark τ V ω → Bool
  | .started _ .cancel => true
  | .acted _ .swap => false
  | _ => left

/-- A pending `recv` was dropped, and no send has looked for its waker since. -/
def abandoned (history : List (ChannelMark τ V ω)) : Bool := history.foldl leave false

theorem abandoned_append (history marks : List (ChannelMark τ V ω)) :
    abandoned (history ++ marks) = marks.foldl leave (abandoned history) :=
  List.foldl_append

/-- The receiver has still to come back to its waker. -/
def Point.looks (filled : Bool) : Point τ V ω → Bool
  | .recheck => true
  | .unregister => true
  | .check _ => !filled
  | .register _ => !filled
  | .blocked => !filled
  | _ => false

theorem Point.receives_of_looks {filled : Bool} {point : Point τ V ω}
    (hlooks : point.looks filled = true) : point.receives = true := by
  cases point <;> first | rfl | cases hlooks

/-- Somebody takes care of the waker in `recv_state`. -/
def Minded (left : Bool) (inner : Inner τ V ω) (pc : τ → Point τ V ω) : Prop :=
  inner.recvState ≠ none → left = true ∨ (∃ task, pc task = .swap) ∨
    ∃ task, (pc task).looks (inner.buckets inner.recvHead).filled = true

namespace Minded

variable [DecidableEq τ] {left : Bool} {inner inner' : Inner τ V ω} {pc : τ → Point τ V ω}
  {task : τ} {point : Point τ V ω}

/-- A task goes on and does not touch the waker. -/
theorem keep (hminded : Minded left inner pc) (hstate : inner'.recvState = inner.recvState)
    (hfilled : (inner'.buckets inner'.recvHead).filled =
      (inner.buckets inner.recvHead).filled)
    (hswap : pc task ≠ .swap)
    (hlooks : (pc task).looks (inner.buckets inner.recvHead).filled = true →
      point.looks (inner.buckets inner.recvHead).filled = true) :
    Minded left inner' (Function.update pc task point) := by
  intro hsome
  rw [hstate] at hsome
  rw [hfilled]
  refine (hminded hsome).imp_right fun h => h.imp ?_ ?_
  · rintro ⟨other, hother⟩
    refine ⟨other, ?_⟩
    rw [Function.update_of_ne ?_, hother]
    rintro rfl
    exact hswap hother
  · rintro ⟨other, hother⟩
    refine ⟨other, ?_⟩
    by_cases heq : other = task
    · rw [heq, Function.update_self]
      rw [heq] at hother
      exact hlooks hother
    · rw [Function.update_of_ne heq]
      exact hother

/-- A task that does not look after the waker goes on. -/
theorem pass (hminded : Minded left inner pc) (hswap : pc task ≠ .swap)
    (hlooks : ∀ filled, (pc task).looks filled = false) :
    Minded left inner (Function.update pc task point) :=
  hminded.keep rfl rfl hswap fun h => by rw [hlooks] at h; cases h

omit [DecidableEq τ] in
/-- Only the receiver looks, and this one does not: a send takes care. -/
theorem swaps (hminded : Minded left inner pc)
    (halone : ∀ other, (pc other).receives = true → other = task)
    (hlooks : (pc task).looks (inner.buckets inner.recvHead).filled = false)
    (hsome : inner.recvState ≠ none) : left = true ∨ ∃ task, pc task = .swap := by
  rcases hminded hsome with hleft | hswap | ⟨other, hother⟩
  · exact Or.inl hleft
  · exact Or.inr hswap
  · rw [halone other (Point.receives_of_looks hother), hlooks] at hother
    cases hother

/-- The receiver, which takes no care of the waker, changes the slots. -/
theorem take (hminded : Minded left inner pc)
    (halone : ∀ other, (pc other).receives = true → other = task)
    (hlooks : (pc task).looks (inner.buckets inner.recvHead).filled = false)
    (hswap : pc task ≠ .swap) (hstate : inner'.recvState = inner.recvState) :
    Minded left inner' (Function.update pc task point) := by
  intro hsome
  rw [hstate] at hsome
  refine (hminded.swaps halone hlooks hsome).imp_right fun h => Or.inl ?_
  obtain ⟨other, hother⟩ := h
  refine ⟨other, ?_⟩
  rw [Function.update_of_ne ?_, hother]
  rintro rfl
  exact hswap hother

variable [DecidableEq ω] {cap : ℕ}

/-- A step on the memory. -/
theorem own (hminded : Minded left inner pc)
    (halone : ∀ task other, (pc task).receives = true → (pc other).receives = true →
      other = task)
    (hact : act cap task inner (pc task) = some (inner', point)) :
    Minded (leave left (.acted task (pc task) : ChannelMark τ V ω)) inner'
      (Function.update pc task point) := by
  cases hpc : pc task with
  | create msg =>
      rw [hpc] at hact
      cases hact
      exact hminded.keep rfl rfl (by simp [hpc]) (by simp [hpc, Point.looks])
  | write selected =>
      rw [hpc] at hact
      obtain ⟨msg, -, heq⟩ := Option.map_eq_some_iff.mp hact
      cases heq
      refine hminded.keep rfl ?_ (by simp [hpc]) (by simp [hpc, Point.looks])
      simp only [Inner.setData, Inner.setMessage, Function.update_apply]
      split
      case isTrue heq => rw [heq]
      case isFalse => rfl
  | fill selected =>
      rw [hpc] at hact
      cases hact
      exact fun _ => Or.inr (Or.inl ⟨task, Function.update_self _ _ _⟩)
  | swap =>
      rw [hpc] at hact
      simp only [act] at hact
      split at hact
      case h_1 =>
        cases hact
        exact fun hsome => absurd rfl hsome
      case h_2 hnone =>
        cases hact
        exact fun hsome => absurd hnone hsome
  | wakeRecv waker =>
      rw [hpc] at hact
      cases hact
      exact hminded.keep rfl rfl (by simp [hpc]) (by simp [hpc, Point.looks])
  | cancelWoken =>
      rw [hpc] at hact
      simp only [act] at hact
      split at hact <;> cases hact
      exact hminded.keep rfl rfl (by simp [hpc]) (by simp [hpc, Point.looks])
  | cancelSleeping =>
      rw [hpc] at hact
      cases hact
      exact hminded.keep rfl rfl (by simp [hpc]) (by simp [hpc, Point.looks])
  | check waker =>
      rw [hpc] at hact
      cases hact
      refine hminded.keep rfl rfl (by simp [hpc]) fun hlooks => ?_
      rw [hpc] at hlooks
      have hempty : (inner.buckets inner.recvHead).filled = false := by
        simpa [Point.looks] using hlooks
      simp [hempty, Point.looks]
  | register waker =>
      rw [hpc] at hact
      cases hact
      exact fun _ => Or.inr (Or.inr ⟨task, by rw [Function.update_self]; rfl⟩)
  | recheck =>
      rw [hpc] at hact
      cases hact
      refine hminded.keep rfl rfl (by simp [hpc]) fun _ => ?_
      cases hfilled : (inner.buckets inner.recvHead).filled <;> simp [Point.looks]
  | unregister =>
      rw [hpc] at hact
      cases hact
      exact fun hsome => absurd rfl hsome
  | take =>
      have hreceives : (pc task).receives = true := by rw [hpc]; rfl
      rw [hpc] at hact
      obtain ⟨result, -, heq⟩ := Option.map_eq_some_iff.mp hact
      cases heq
      exact hminded.take (fun other => halone task other hreceives) (by simp [hpc, Point.looks])
        (by simp [hpc]) rfl
  | receive receive head result =>
      have hreceives : (pc task).receives = true := by rw [hpc]; rfl
      rw [hpc] at hact
      cases receive with
      | backfill waiter =>
          obtain ⟨msg, -, heq⟩ := Option.map_eq_some_iff.mp hact
          cases heq
          exact hminded.take (fun other => halone task other hreceives)
            (by simp [hpc, Point.looks]) (by simp [hpc]) rfl
      | _ => cases hact
  | _ =>
      rw [hpc] at hact
      cases hact

omit [DecidableEq ω] in
/-- A call begins. -/
theorem call (hminded : Minded left inner pc) {call : Call V ω}
    (hstart : start (pc task) call = some point) :
    Minded (leave left (.started task call : ChannelMark τ V ω)) inner
      (Function.update pc task point) := by
  unfold start at hstart
  split at hstart <;> cases hstart <;> rename_i hpc
  case h_5 => exact hminded.keep rfl rfl (by simp [hpc]) (by simp [hpc, Point.looks])
  case h_6 => exact fun _ => Or.inl rfl
  all_goals exact hminded.pass (by simp [hpc]) fun _ => by simp [hpc, Point.looks]

end Minded

/-! ## The runs of the channel -/

theorem not_looks_of_resume {cap : ℕ} {point point' : Point τ V ω} {resp : Resp τ SendState}
    (hresume : resume cap point resp = some point') :
    point ≠ .swap ∧ ∀ filled, point.looks filled = false := by
  constructor
  · rintro rfl
    cases resp <;> cases hresume
  · intro filled
    cases point <;> first | rfl | (cases resp <;> cases hresume)

variable {cap : ℕ} {inner : Inner τ V ω}
  {history : List (ChannelMark τ V ω)} {sys : HeapChannel τ V ω}

theorem leave_events (left : Bool) (events : List (Event τ Unit ω)) :
    (events.map (.event : _ → ChannelMark τ V ω)).foldl leave left = left := by
  induction events with
  | nil => rfl
  | cons event events ih => exact ih

variable [DecidableEq τ] [DecidableEq ω] [Fintype τ]

theorem minded_of_trace (hnew : Inner.new cap = some inner)
    (htrace : (machine cap inner).Trace history sys) :
    Minded (abandoned history) sys.memory sys.pc ∧
      usage.within sys.pc = true := by
  obtain ⟨-, -, rfl⟩ := new_spec hnew
  refine htrace.invariant (motive := fun history sys =>
    Minded (abandoned history) sys.memory sys.pc ∧ usage.within sys.pc = true) ⟨?_, ?_⟩ ?_
  · exact fun hsome => absurd rfl hsome
  · exact decide_eq_true fun _ _ h => by cases h
  · rintro past before ⟨task, label⟩ after marks - ⟨hminded, hwithin⟩ hnext
    obtain ⟨hnext, hallowed⟩ := System.machine_next.mp hnext
    obtain ⟨-, hstep⟩ := System.next_spec hnext
    refine ⟨?_, (Bool.and_eq_true_iff.mp hallowed).1⟩
    rw [abandoned_append]
    generalize hresult : (after, marks) = result at hstep
    have hafter : after = result.1 := by rw [← hresult]
    have hmarks : marks = result.2 := by rw [← hresult]
    rw [hafter, hmarks]
    cases hstep with
    | start hcode hstart => exact hminded.call hstart
    | act hcode hact =>
        exact hminded.own (fun task other htask hother =>
          (of_decide_eq_true hwithin task other htask hother).symm) hact
    | fail hcode hact =>
        have hswap : before.pc task ≠ .swap := by
          intro hpc
          simp only [client, hpc, act] at hact
          split at hact <;> cases hact
        have hleave : leave (abandoned past)
            (.acted task (before.pc task) : ChannelMark τ V ω) = abandoned past := by
          cases hpc : before.pc task <;> first | rfl | exact absurd hpc hswap
        change Minded (leave (abandoned past) (.acted task (before.pc task))) before.memory
          before.pc
        rw [hleave]
        exact hminded
    | @move _ act outcome hrequest hstep =>
        cases hresp : outcome.resp with
        | none =>
            simp only [System.settle, hresp, leave_events]
            exact hminded
        | some resp =>
            cases hgo : (client cap).goOn (before.pc task) resp with
            | none =>
                simp only [System.settle, hresp, hgo, List.foldl_append, leave_events]
                exact hminded
            | some point =>
                have hresume : resume cap (before.pc task) resp = some point := by
                  cases resp <;> first | exact hgo | cases hgo
                obtain ⟨hswap, hlooks⟩ := not_looks_of_resume hresume
                simp only [System.settle, hresp, hgo, List.foldl_append, leave_events]
                exact hminded.pass hswap hlooks

/-- In every run the channel can be dropped while nothing is in progress, unless
a pending `recv` was dropped and no send has looked for its waker since. -/
theorem abandoned_of_drop (hnew : Inner.new cap = some inner)
    (htrace : (machine cap inner).Trace history sys)
    (hidle : ∀ task, sys.pc task = .idle ∨ ∃ outcome, sys.pc task = .ended outcome)
    (hdrop : sys.memory.drop = none) : abandoned history = true := by
  obtain ⟨hminded, -⟩ := minded_of_trace hnew htrace
  have hsome : sys.memory.recvState ≠ none := by
    intro hnone
    simp [Inner.drop, hnone] at hdrop
  rcases hminded hsome with hleft | ⟨task, hswap⟩ | ⟨task, hlooks⟩
  · exact hleft
  · rcases hidle task with h | ⟨outcome, h⟩ <;> rw [h] at hswap <;> cases hswap
  · rcases hidle task with h | ⟨outcome, h⟩ <;> rw [h] at hlooks <;> cases hlooks

/-- The receiver of an empty channel gives up. -/
theorem abandoned_of_cancel :
    ∃ (history : List (ChannelMark (Fin 1) ℕ Unit)) (sys : HeapChannel (Fin 1) ℕ Unit),
      sys.memory.drop = none ∧ abandoned history = true := by
  let empty : Inner (Fin 1) ℕ Unit := ⟨fun _ => ⟨false, none⟩, none, 0, fun _ => none, none⟩
  have htrace : (machine 1 empty).Trace _ _ :=
    ⟨[(0, .start (.recv ())), (0, .own), (0, .own), (0, .own), (0, .start .cancel)], rfl⟩
  have hnew : Inner.new 1 = some empty := rfl
  refine ⟨_, _, ?drop, abandoned_of_drop hnew htrace (fun task => Or.inl ?_) ?drop⟩
  · rfl
  · rw [Subsingleton.elim task 0]
    rfl

end Mpsc

end AsyncMutex

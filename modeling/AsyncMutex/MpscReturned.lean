import AsyncMutex.MpscDelivery
import AsyncMutex.MpscDrop

/-!
# What a send that returned can rely on

The message of a send that returned `Ok` stays in the books until it is
received.  When the channel is dropped before, the message stays in its bucket:
a `MaybeUninit` does not drop its value.
-/

namespace AsyncMutex

namespace Mpsc

variable {τ V ω : Type}

/-! ## The sends that returned -/

/-- In a call of `send`. -/
def Point.sends : Point τ V ω → Bool
  | .create _ => true
  | .waiter => true
  | .sendLoad => true
  | .reserve _ => true
  | .write _ => true
  | .fill _ => true
  | .swap => true
  | .wakeRecv _ => true
  | .wait _ => true
  | .entered => true
  | .waiting => true
  | .cancelWoken => true
  | .cancelSleeping => true
  | _ => false

/-- A task that acts or gets an answer is in a send only if it was before. -/
theorem not_sends_of_act [DecidableEq τ] [DecidableEq ω] {cap : ℕ} {task : τ}
    {inner inner' : Inner τ V ω} {point point' : Point τ V ω}
    (hact : act cap task inner point = some (inner', point')) (hsends : point.sends = false) :
    point'.sends = false := by
  cases point with
  | check waker =>
      cases hact
      split <;> rfl
  | register waker =>
      cases hact
      rfl
  | recheck =>
      cases hact
      split <;> rfl
  | unregister =>
      cases hact
      rfl
  | take =>
      obtain ⟨result, -, heq⟩ := Option.map_eq_some_iff.mp hact
      cases heq
      rfl
  | receive receive head result =>
      cases receive with
      | backfill waiter =>
          obtain ⟨msg, -, heq⟩ := Option.map_eq_some_iff.mp hact
          cases heq
          rfl
      | _ => cases hact
  | _ => first | (cases hact; done) | cases hsends

theorem not_sends_of_resume {cap : ℕ} {point point' : Point τ V ω} {resp : Resp τ SendState}
    (hresume : resume cap point resp = some point') (hsends : point.sends = false) :
    point'.sends = false := by
  cases point with
  | receive receive head result =>
      cases receive with
      | unlock => cases resp <;> cases hresume; rfl
      | backfill waiter => cases resp <;> cases hresume
      | _ =>
          obtain ⟨after, -, rfl⟩ := Option.map_eq_some_iff.mp hresume
          rfl
  | _ => first | (cases resp <;> cases hresume; done) | cases hsends

theorem start_cases {point point' : Point τ V ω} {call : Call V ω}
    (hstart : start point call = some point') :
    (∃ msg, call = .send msg) ∨ point'.sends = false := by
  unfold start at hstart
  split at hstart <;> cases hstart
  case h_1 => exact Or.inl ⟨_, rfl⟩
  case h_2 => exact Or.inl ⟨_, rfl⟩
  all_goals exact Or.inr rfl

/-- The last call has returned. -/
def Point.isEnded : Point τ V ω → Bool
  | .ended _ => true
  | _ => false

theorem Point.ended_of_isEnded {point : Point τ V ω} (hended : point.isEnded = true) :
    ∃ outcome, point = .ended outcome := by
  cases point with
  | ended outcome => exact ⟨outcome, rfl⟩
  | _ => cases hended

namespace Log

variable {log : Log τ V} {task : τ} {before after : Point τ V ω} {returned : List (Entry τ V)}

/-- A send that returns `Ok` is told so. -/
def tell (log : Log τ V) (task : τ) (before after : Point τ V ω)
    (returned : List (Entry τ V)) : List (Entry τ V) :=
  match before, after, log.current task with
  | .ended _, _, _ => returned
  | _, .ended .sent, some msg => returned ++ [⟨task, log.begun task, msg⟩]
  | _, _, _ => returned

theorem mem_tell {entry : Entry τ V} (hentry : entry ∈ log.tell task before after returned) :
    entry ∈ returned ∨ after = .ended .sent ∧ entry.task = task ∧
      entry.number = log.begun task ∧ log.current task = some entry.msg := by
  unfold tell at hentry
  split at hentry
  case h_2 msg _ _ hcurrent =>
    rcases List.mem_append.mp hentry with hold | hnew
    · exact Or.inl hold
    · rw [List.mem_singleton.mp hnew]
      exact Or.inr ⟨rfl, rfl, rfl, hcurrent⟩
  all_goals exact Or.inl hentry

theorem begun_accept : (log.accept task).begun = log.begun := by
  unfold accept
  split <;> rfl

theorem begun_turn : (log.turn task before after).begun = log.begun := by
  unfold turn
  split <;> first | exact begun_accept | rfl

theorem mem_accept {entry : Entry τ V} (hentry : entry ∈ log.accepted) :
    entry ∈ (log.accept task).accepted := by
  unfold accept
  split
  · exact List.mem_append_left _ hentry
  · exact hentry

theorem mem_turn {entry : Entry τ V} (hentry : entry ∈ log.accepted) :
    entry ∈ (log.turn task before after).accepted := by
  unfold turn
  split <;> first | exact mem_accept hentry | exact hentry

end Log

/-- The sends that returned `Ok` were accepted, and are not taken back. -/
def Told (log : Log τ V) (pc : τ → Point τ V ω) (returned : List (Entry τ V)) : Prop :=
  ∀ entry ∈ returned, entry ∈ log.accepted ∧
    (entry.number < log.begun entry.task ∨
      entry.number = log.begun entry.task ∧ (pc entry.task).sends = false)

section Runs

variable [DecidableEq τ] [DecidableEq ω] [Fintype τ] {cap : ℕ} {log : Log τ V}
  {inner : Inner τ V ω} {returned : List (Entry τ V)} {history : List (ChannelMark τ V ω)}
  {sys before after : HeapChannel τ V ω} {task : τ} {label : Label (Call V ω) ω}
  {marks : List (ChannelMark τ V ω)}

/-- Only a call of `send` brings a task into a send. -/
theorem not_sends_of_next (hnext : before.next (client cap) task label = some (after, marks))
    (hcall : ∀ call, label ≠ .start call) {other : τ}
    (hsends : (before.pc other).sends = false) : (after.pc other).sends = false := by
  obtain ⟨-, hstep⟩ := System.next_spec hnext
  generalize hresult : (after, marks) = result at hstep
  have hafter : after = result.1 := by rw [← hresult]
  rw [hafter]
  have hupdate {point : Point τ V ω} (hpoint : (before.pc task).sends = false →
      point.sends = false) : (Function.update before.pc task point other).sends = false := by
    rw [Function.update_apply]
    split
    case isTrue heq =>
      rw [heq] at hsends
      exact hpoint hsends
    case isFalse => exact hsends
  cases hstep with
  | start => exact absurd rfl (hcall _)
  | act hcode hact => exact hupdate (not_sends_of_act hact)
  | fail => exact hsends
  | @move _ act outcome hrequest hstep =>
      cases hresp : outcome.resp with
      | none =>
          simp only [System.settle, hresp]
          exact hsends
      | some resp =>
          cases hgo : (client cap).goOn (before.pc task) resp with
          | none =>
              simp only [System.settle, hresp, hgo]
              exact hsends
          | some point =>
              simp only [System.settle, hresp, hgo]
              have hresume : resume cap (before.pc task) resp = some point := by
                cases resp <;> first | exact hgo | cases hgo
              exact hupdate (not_sends_of_resume hresume)

/-- A step of the channel keeps the sends that returned. -/
theorem Told.note (htold : Told log before.pc returned) (hsound : Sound cap before.lists)
    (hnext : before.next (client cap) task label = some (after, marks)) :
    Told (log.note before (task, label) after) after.pc returned := by
  intro entry hentry
  obtain ⟨haccepted, hnumber⟩ := htold entry hentry
  have hturn (hcall : ∀ call, label ≠ .start call) :
      entry ∈ (log.turn task (before.pc task) (after.pc task)).accepted ∧
        (entry.number < (log.turn task (before.pc task) (after.pc task)).begun entry.task ∨
          entry.number = (log.turn task (before.pc task) (after.pc task)).begun entry.task ∧
            (after.pc entry.task).sends = false) := by
    rw [Log.begun_turn]
    exact ⟨Log.mem_turn haccepted,
      hnumber.imp_right fun h => ⟨h.1, not_sends_of_next hnext hcall h.2⟩⟩
  cases label with
  | start call =>
      obtain ⟨-, hstep⟩ := System.next_spec hnext
      generalize hresult : (after, marks) = result at hstep
      have hafter : after = result.1 := by rw [← hresult]
      rw [hafter]
      cases hstep with
      | @start _ point hcode hstart =>
          change entry ∈ (log.call task call).accepted ∧
            (entry.number < (log.call task call).begun entry.task ∨
              entry.number = (log.call task call).begun entry.task ∧
                (Function.update before.pc task point entry.task).sends = false)
          by_cases heq : entry.task = task
          · rw [heq] at hnumber ⊢
            rw [Function.update_self]
            cases call with
            | send msg =>
                refine ⟨haccepted, Or.inl ?_⟩
                simp only [Log.call, Log.start, Function.update_self]
                omega
            | _ =>
                refine ⟨haccepted, ?_⟩
                rcases start_cases hstart with ⟨msg, hsend⟩ | hsends
                · cases hsend
                · exact hnumber.imp_right fun h => ⟨h.1, hsends⟩
          · rw [Function.update_of_ne heq]
            cases call with
            | send msg => simpa [Log.call, Log.start, heq] using ⟨haccepted, hnumber⟩
            | _ => exact ⟨haccepted, hnumber⟩
      | move hrequest => cases hrequest
  | step spurious =>
      have hkeep := hturn fun call h => by cases h
      by_cases hcancel : ∃ futex, before.world.phase task = .dropCancel futex
      · obtain ⟨futex, hphase⟩ := hcancel
        have hwaiting : before.pc task = .waiting := by
          refine waiting_of_stage hsound.coherent (Or.inr ?_)
          simp [World.board, System.lists, World.lists, World.withStore, hphase, Phase.stage]
        simp only [Log.note, hphase]
        split
        · exact ⟨haccepted, hnumber.imp_right fun h =>
            ⟨h.1, not_sends_of_next hnext (fun call h => by cases h) h.2⟩⟩
        · refine ⟨List.mem_filter.mpr ⟨haccepted, decide_eq_true ?_⟩, hnumber.imp_right fun h =>
            ⟨h.1, not_sends_of_next hnext (fun call h => by cases h) h.2⟩⟩
          -- only a send that still waits is taken back
          rintro ⟨rfl, hlast⟩
          rcases hnumber with hlt | ⟨-, hsends⟩
          · omega
          · rw [hwaiting] at hsends
            cases hsends
      · rw [not_exists] at hcancel
        rw [Log.note_eq (fun call h => by cases h) fun _ futex _ => hcancel futex]
        exact hkeep
  | _ => exact hturn fun call h => by cases h

/-- The channel with its books and with the sends that returned `Ok`. -/
def settled (cap : ℕ) (inner : Inner τ V ω) :
    Machine ((HeapChannel τ V ω × Log τ V) × List (Entry τ V)) (τ × Label (Call V ω) ω)
      (ChannelMark τ V ω) :=
  (audited cap inner).record (fun before label _ after returned =>
    after.2.tell label.1 (before.1.pc label.1) (after.1.pc label.1) returned) []

theorem told_of_trace [Nonempty τ] (hnew : Inner.new cap = some inner)
    (htrace : (settled cap inner).Trace history ((sys, log), returned)) :
    (audited cap inner).Trace history (sys, log) ∧ Told log sys.pc returned := by
  refine htrace.invariant (motive := fun history
    (current : (HeapChannel τ V ω × Log τ V) × List (Entry τ V)) =>
      (audited cap inner).Trace history current.1 ∧
        Told current.1.2 current.1.1.pc current.2) ⟨Machine.trace_init _, ?_⟩ ?_
  · exact fun _ h => by cases h
  · rintro past ⟨⟨before, log⟩, returned⟩ ⟨task, label⟩ ⟨⟨after, log'⟩, returned'⟩ marks -
      ⟨hbefore, htold⟩ hnext
    obtain ⟨hnext, hreturned⟩ := Machine.record_next hnext
    have hafter := hbefore.step hnext
    obtain ⟨hnext, hlog⟩ := Machine.record_next hnext
    refine ⟨hafter, fun entry hentry => ?_⟩
    rw [show returned' = _ from hreturned] at hentry
    rcases Log.mem_tell hentry with hold | ⟨hpc, htask, hnumber, hcurrent⟩
    · obtain ⟨hmachine, -⟩ := accounts_of_trace hnew hbefore
      obtain ⟨hlists, -⟩ := System.lists_of_trace hmachine
      have hkeep := htold.note (sound_of_reachable hnew hlists.reachable)
        (System.machine_next.mp hnext).1
      rw [show log' = _ from hlog]
      exact hkeep entry hold
    · obtain ⟨hmachine, haccounts⟩ := accounts_of_trace hnew hafter
      obtain ⟨other, hother, htask', hnumber', hcurrent'⟩ :=
        (haccounts.delivers hnew hmachine).sent task hpc
      have hsame : other = entry := by
        cases other
        cases entry
        simp_all
      rw [← hsame]
      refine ⟨hother, Or.inr ⟨?_, ?_⟩⟩
      · rw [htask']
        exact hnumber'
      · rw [htask', show after.pc task = _ from hpc]
        rfl

/-! ## The channel is a queue -/

/-- The senders that have reserved a slot and not filled it yet. -/
def reservers (sys : HeapChannel τ V ω) : Finset τ :=
  Finset.univ.filter fun task => (sys.pc task).writes.isSome

/-- The slots that are filled. -/
def filledSlots (cap : ℕ) (sys : HeapChannel τ V ω) : Finset ℕ :=
  (Finset.range cap).filter fun index => (sys.memory.buckets index).filled

/-- The channel is a queue of at most `cap` messages. -/
structure Lossless (cap : ℕ) (sys : HeapChannel τ V ω) (log : Log τ V)
    (returned : List (Entry τ V)) : Prop where
  safe : sys.panicked = false
  order : log.received <+: log.accepted.map Entry.msg
  /-- A send that has returned `Ok` is in the line exactly once. -/
  sent : ∀ entry ∈ returned, log.accepted.filter (fun other =>
    other.task = entry.task ∧ other.number = entry.number) = [entry]
  bounded : (reservers sys).card + (filledSlots cap sys).card ≤ (sys.world.atom ()).size ∧
    (sys.world.atom ()).size ≤ cap
  /-- Between the receives the slots in use are those from `recv_head` to
  `write_head`. -/
  head : (∀ task point head result, sys.pc task ≠ .receive point head result) →
    (sys.world.atom ()).writeHead = (sys.memory.recvHead + (sys.world.atom ()).size) % cap

/-- The sender that has reserved the slot and not filled it. -/
def Ticket.writer : Ticket τ V → Option τ
  | .writing task _ => some task
  | .stored _ => none

omit [DecidableEq ω] in
/-- The reserved and the filled slots are different slots of the line. -/
theorem Layout.reserved_le {atom : SendState} {transit : Transit} {ledger : Ledger τ V}
    (hlayout : Layout cap atom sys.memory sys.pc transit ledger) :
    (reservers sys).card + (filledSlots cap sys).card ≤ ledger.line.length := by
  let writer (offset : ℕ) : Option τ := ledger.line[offset]?.bind Ticket.writer
  let offsets := Finset.range ledger.line.length
  have hreservers : (reservers sys).card ≤
      (offsets.filter fun offset => (writer offset).isSome).card := by
    have hsubset : (reservers sys).map ⟨some, Option.some_injective τ⟩ ⊆
        (offsets.filter fun offset => (writer offset).isSome).image writer := by
      intro task htask
      obtain ⟨task, hmem, rfl⟩ := Finset.mem_map.mp htask
      obtain ⟨⟨selected, written⟩, hwrites⟩ :=
        Option.isSome_iff_exists.mp (Finset.mem_filter.mp hmem).2
      obtain ⟨offset, value, hoffset, -⟩ := hlayout.writers task selected written hwrites
      have hwriter : writer offset = some task := by simp [writer, hoffset, Ticket.writer]
      refine Finset.mem_image.mpr ⟨offset, Finset.mem_filter.mpr ⟨?_, ?_⟩, hwriter⟩
      · exact Finset.mem_range.mpr (List.getElem?_eq_some_iff.mp hoffset).1
      · rw [hwriter]
        rfl
    rw [← Finset.card_map ⟨some, Option.some_injective τ⟩]
    exact (Finset.card_le_card hsubset).trans Finset.card_image_le
  have hfilled : (filledSlots cap sys).card ≤
      (offsets.filter fun offset => ¬ (writer offset).isSome).card := by
    have hsubset : filledSlots cap sys ⊆
        (offsets.filter fun offset => ¬ (writer offset).isSome).image
          (Ring.slot cap ledger.base) := by
      intro index hindex
      obtain ⟨hrange, hfull⟩ := Finset.mem_filter.mp hindex
      obtain ⟨offset, hoffset, rfl⟩ :=
        Ring.exists_offset ledger.base (Finset.mem_range.mp hrange)
      have hlt : offset < ledger.line.length := by
        by_contra hge
        have hfree := hlayout.window.free offset (Nat.le_of_not_lt hge) hoffset
        rw [hfull] at hfree
        cases hfree
      refine Finset.mem_image.mpr ⟨offset, Finset.mem_filter.mpr
        ⟨Finset.mem_range.mpr hlt, ?_⟩, rfl⟩
      have hfits := hlayout.window.entry offset _ (List.getElem?_eq_getElem hlt)
      simp only [writer, List.getElem?_eq_getElem hlt]
      cases hticket : ledger.line[offset] with
      | writing task value =>
          rw [hticket] at hfits
          rw [hfits.1] at hfull
          cases hfull
      | stored value => simp [Ticket.writer]
    exact (Finset.card_le_card hsubset).trans Finset.card_image_le
  calc
    (reservers sys).card + (filledSlots cap sys).card ≤
        (offsets.filter fun offset => (writer offset).isSome).card +
          (offsets.filter fun offset => ¬ (writer offset).isSome).card :=
      Nat.add_le_add hreservers hfilled
    _ = offsets.card := Finset.card_filter_add_card_filter_not _
    _ = ledger.line.length := Finset.card_range _

omit [DecidableEq ω] [Fintype τ] in
/-- An accepted send is found by its task and its number. -/
theorem filter_eq_singleton
    (hdistinct : (log.accepted.map fun entry => (entry.task, entry.number)).Nodup)
    {entry : Entry τ V} (hentry : entry ∈ log.accepted) :
    log.accepted.filter (fun other => other.task = entry.task ∧ other.number = entry.number) =
      [entry] := by
  obtain ⟨front, back, hsplit⟩ := List.append_of_mem hentry
  rw [hsplit] at hdistinct ⊢
  rw [List.map_append, List.map_cons, List.nodup_append', List.nodup_cons] at hdistinct
  obtain ⟨-, ⟨hback, -⟩, hfront⟩ := hdistinct
  have hnone (entries : List (Entry τ V))
      (hnot : (entry.task, entry.number) ∉
        entries.map fun other => (other.task, other.number)) :
      entries.filter (fun other => other.task = entry.task ∧ other.number = entry.number) =
        [] := by
    refine List.filter_eq_nil_iff.mpr fun other hother hsame => hnot ?_
    obtain ⟨htask, hnumber⟩ := of_decide_eq_true hsame
    exact List.mem_map.mpr ⟨other, hother, by rw [htask, hnumber]⟩
  rw [List.filter_append, List.filter_cons_of_pos (by simp), hnone back hback,
    hnone front fun hmem => hfront hmem (List.mem_cons_self ..), List.nil_append]

/-- In every run the channel is a queue: the received messages are the first of
the accepted ones, in their order, each send that returned `Ok` is among these
exactly once, and the slots in use are a window of the ring. -/
theorem lossless_of_trace [Nonempty τ] (hnew : Inner.new cap = some inner)
    (htrace : (settled cap inner).Trace history ((sys, log), returned)) :
    Lossless cap sys log returned := by
  obtain ⟨haudited, htold⟩ := told_of_trace hnew htrace
  obtain ⟨hmachine, haccounts⟩ := accounts_of_trace hnew haudited
  have hdelivers := haccounts.delivers hnew hmachine
  obtain ⟨receiver, ledger, out, slots, waiting, hcore, -⟩ := haccounts
  refine ⟨hdelivers.safe, hdelivers.order, fun entry hentry => ?_, ⟨?_, ?_⟩, fun hrests => ?_⟩
  · exact filter_eq_singleton hdelivers.once (htold entry hentry).1
  · have hline : (reservers sys).card + (filledSlots cap sys).card ≤ ledger.line.length :=
      Layout.reserved_le hcore.layout
    have hsize : (sys.world.atom ()).size = _ := hcore.layout.size
    omega
  · exact hcore.layout.size_le
  · have hnone : ((sys.lists.pc receiver).transit (queued sys.lists.world.board)) = .none := by
      change (sys.pc receiver).transit _ = .none
      cases hpc : sys.pc receiver with
      | receive point head result => exact absurd hpc (hrests receiver point head result)
      | _ => rfl
    have hlayout := hcore.layout
    rw [hnone] at hlayout
    have hhead : (sys.world.atom ()).writeHead = _ := hlayout.writeHead
    have hsize : (sys.world.atom ()).size = _ := hlayout.size
    have hrecv : sys.memory.recvHead = _ := hlayout.recvHead
    rw [hhead, hsize, hrecv]
    simp [Ring.slot, Transit.gap, Transit.extra]

end Runs

/-- The receiver takes the first of two messages, and the sender of the second
one, which waited meanwhile, returns. -/
theorem lossless_of_recv :
    ∃ (sys : HeapChannel (Fin 2) ℕ Unit) (log : Log (Fin 2) ℕ)
      (returned : List (Entry (Fin 2) ℕ)), log.received = [5] ∧
        returned.map Entry.msg = [5, 6] ∧ Lossless 1 sys log returned := by
  let call (task : Fin 2) : Fin 2 × Label (Call ℕ Unit) Unit := (task, .call false ())
  let send (msg : ℕ) : List (Fin 2 × Label (Call ℕ Unit) Unit) :=
    [(0, .start (.send msg)), (0, .own)]
  let empty : Inner (Fin 2) ℕ Unit := ⟨fun _ => ⟨false, none⟩, none, 0, fun _ => none, none⟩
  have hrun : ((settled 1 empty).run (send 5 ++ List.replicate 3 (call 0) ++
      List.replicate 3 (0, .own) ++ send 6 ++ List.replicate 4 (call 0) ++
        [(1, .start (.recv ())), (1, .own), (1, .own)] ++ List.replicate 6 (call 1) ++
          [(1, .own), call 1, (1, .step false), call 1, call 1, (0, .poll ()),
            (0, .step false)])).map
              (fun result => decide (result.1.1.2.received = [5] ∧
                result.1.2.map Entry.msg = [5, 6])) = some true := by decide +kernel
  obtain ⟨⟨⟨⟨sys, log⟩, returned⟩, history⟩, hafter, hbooks⟩ := Option.map_eq_some_iff.mp hrun
  obtain ⟨hreceived, hreturned⟩ := of_decide_eq_true hbooks
  have hnew : Inner.new 1 = some empty := rfl
  exact ⟨sys, log, returned, hreceived, hreturned, lossless_of_trace hnew ⟨_, hafter⟩⟩

/-! ## Dropping the channel -/

/-- The values that are dropped with a bucket: a `MaybeUninit` drops none. -/
def Bucket.dropped (_ : Bucket V) : List V := []

/-- The values that are dropped with the fields of `Inner`. -/
def Inner.dropped (cap : ℕ) (inner : Inner τ V ω) : List V :=
  (List.range cap).flatMap fun index => (inner.buckets index).dropped

namespace Log

variable [DecidableEq τ]

/-- The accepted messages that were not received. -/
def unreceived (log : Log τ V) : List (Entry τ V) := log.accepted.drop log.received.length

/-- Those of the sends that returned `Ok`. -/
def owed (log : Log τ V) (returned : List (Entry τ V)) : List (Entry τ V) :=
  log.unreceived.filter fun entry =>
    returned.any fun other => other.task = entry.task ∧ other.number = entry.number

end Log

/-- Dropping the channel does not panic, and every message that was not received
and whose send returned `Ok` is dropped exactly once. -/
structure DropsCleanly [DecidableEq τ] (cap : ℕ) (inner : Inner τ V ω) (log : Log τ V)
    (returned : List (Entry τ V)) : Prop where
  safe : inner.drop = some ()
  dropped : ((log.owed returned).map Entry.msg).Subperm (inner.dropped cap)
  once : (inner.dropped cap).Subperm (log.unreceived.map Entry.msg)

section Drop

variable [DecidableEq τ] [DecidableEq ω] [Fintype τ] {cap : ℕ} {log : Log τ V}
  {inner : Inner τ V ω} {returned : List (Entry τ V)} {history : List (ChannelMark τ V ω)}
  {sys : HeapChannel τ V ω}

omit [DecidableEq τ] [DecidableEq ω] [Fintype τ] in
theorem drop_eq_some : inner.drop = some () ↔ inner.recvState = none := by
  unfold Inner.drop
  split
  case h_1 waker hsome => simp [hsome]
  case h_2 hnone => simp [hnone]

omit [DecidableEq τ] [DecidableEq ω] [Fintype τ] in
theorem dropped_eq_nil : inner.dropped cap = [] := by
  simp [Inner.dropped, Bucket.dropped]

omit [DecidableEq ω] [Fintype τ] in
theorem dropsCleanly_iff : DropsCleanly cap inner log returned ↔
    inner.recvState = none ∧ log.owed returned = [] := by
  constructor
  · rintro ⟨hsafe, hdropped, -⟩
    rw [dropped_eq_nil, List.subperm_nil, List.map_eq_nil_iff] at hdropped
    exact ⟨drop_eq_some.mp hsafe, hdropped⟩
  · rintro ⟨hstate, howed⟩
    refine ⟨drop_eq_some.mpr hstate, ?_, ?_⟩
    · rw [howed]
      exact List.nil_subperm
    · rw [dropped_eq_nil]
      exact List.nil_subperm

/-- While nothing is in progress, the messages that were not received are those in
the slots in use, and the channel drops cleanly exactly if no waker of a receiver
is left and every send that returned `Ok` was received. -/
theorem dropsCleanly_of_trace [Nonempty τ] (hnew : Inner.new cap = some inner)
    (htrace : (settled cap inner).Trace history ((sys, log), returned))
    (hidle : ∀ task, sys.pc task = .idle ∨ ∃ outcome, sys.pc task = .ended outcome) :
    (log.unreceived.map fun entry => some entry.msg) =
        ((List.range (sys.world.atom ()).size).map fun offset =>
          (sys.memory.buckets ((sys.memory.recvHead + offset) % cap)).data) ∧
      (DropsCleanly cap sys.memory log returned ↔
        sys.memory.recvState = none ∧ log.owed returned = []) := by
  obtain ⟨haudited, -⟩ := told_of_trace hnew htrace
  obtain ⟨hmachine, haccounts⟩ := accounts_of_trace hnew haudited
  obtain ⟨hlists, -⟩ := System.lists_of_trace hmachine
  have hsound := sound_of_reachable hnew hlists.reachable
  have hdelivers := haccounts.delivers hnew hmachine
  refine ⟨?_, dropsCleanly_iff⟩
  have hrests (task : τ) : code cap (sys.pc task) = .rest := by
    rcases hidle task with hpc | ⟨outcome, hpc⟩ <;> rw [hpc] <;> rfl
  have hcontents : sys.lists.world.store.contents () 0 = [] := by
    obtain ⟨receiver, ledger, out, slots, waiting, hcore, -⟩ := haccounts
    refine List.eq_nil_iff_forall_not_mem.mpr fun task hmem => ?_
    have hpends := pends_of_mem hcore hsound.coherent (List.mem_append_right _ hmem)
    rcases hidle task with hpc | ⟨outcome, hpc⟩ <;>
      rw [show sys.lists.pc task = sys.pc task from rfl, hpc] at hpends <;> cases hpends
  have hkept := hdelivers.kept hrests
  rw [hcontents, List.map_nil, List.append_nil] at hkept
  rw [Log.unreceived, List.map_drop, hkept]
  exact List.drop_left' (List.length_map _)

end Drop

/-- All messages of a channel with one slot were received. -/
theorem dropsCleanly_of_received :
    ∃ (sys : HeapChannel (Fin 2) ℕ Unit) (log : Log (Fin 2) ℕ)
      (returned : List (Entry (Fin 2) ℕ)), returned.map Entry.msg = [5, 6] ∧
        DropsCleanly 1 sys.memory log returned := by
  let call (task : Fin 2) : Fin 2 × Label (Call ℕ Unit) Unit := (task, .call false ())
  let send (msg : ℕ) : List (Fin 2 × Label (Call ℕ Unit) Unit) :=
    [(0, .start (.send msg)), (0, .own)] ++ List.replicate 3 (call 0) ++
      List.replicate 3 (0, .own)
  let recv : List (Fin 2 × Label (Call ℕ Unit) Unit) :=
    [(1, .start (.recv ())), (1, .own), (1, .own)] ++ List.replicate 8 (call 1)
  let empty : Inner (Fin 2) ℕ Unit := ⟨fun _ => ⟨false, none⟩, none, 0, fun _ => none, none⟩
  have hrun : ((settled 1 empty).run (send 5 ++ recv ++ send 6 ++ recv)).map
      (fun result => (decide (∀ task, (result.1.1.1.pc task).isEnded = true),
        result.1.1.1.memory.recvState, (result.1.1.2.owed result.1.2).length,
          result.1.2.map Entry.msg)) = some (true, none, 0, [5, 6]) := by decide +kernel
  obtain ⟨⟨⟨⟨sys, log⟩, returned⟩, history⟩, hafter, hbooks⟩ := Option.map_eq_some_iff.mp hrun
  simp only [Prod.mk.injEq, decide_eq_true_eq] at hbooks
  obtain ⟨hended, hstate, howed, hreturned⟩ := hbooks
  have hnew : Inner.new 1 = some empty := rfl
  have hidle (task : Fin 2) : sys.pc task = .idle ∨ ∃ outcome, sys.pc task = .ended outcome :=
    Or.inr (Point.ended_of_isEnded (hended task))
  exact ⟨sys, log, returned, hreturned, (dropsCleanly_of_trace hnew ⟨_, hafter⟩ hidle).2.mpr
    ⟨hstate, List.length_eq_zero_iff.mp howed⟩⟩

/-- A channel does not drop cleanly after a pending `recv` was dropped, nor with
a message that nobody received. -/
theorem unclean_of_unreceived :
    (¬ ∀ history (sys : HeapChannel (Fin 1) ℕ Unit) (log : Log (Fin 1) ℕ)
      (returned : List (Entry (Fin 1) ℕ)),
        (settled 1 ⟨fun _ => ⟨false, none⟩, none, 0, fun _ => none, none⟩).Trace history
            ((sys, log), returned) →
          (∀ task, sys.pc task = .idle ∨ ∃ outcome, sys.pc task = .ended outcome) →
            sys.memory.drop = some ()) ∧
      ¬ ∀ history (sys : HeapChannel (Fin 1) ℕ Unit) (log : Log (Fin 1) ℕ)
        (returned : List (Entry (Fin 1) ℕ)),
          (settled 1 ⟨fun _ => ⟨false, none⟩, none, 0, fun _ => none, none⟩).Trace history
              ((sys, log), returned) →
            (∀ task, sys.pc task = .idle ∨ ∃ outcome, sys.pc task = .ended outcome) →
              ((log.owed returned).map Entry.msg).Subperm (sys.memory.dropped 1) := by
  constructor
  · intro hclean
    have hsafe := hclean _ _ _ _
      ⟨[(0, .start (.recv ())), (0, .own), (0, .own), (0, .own), (0, .start .cancel)], rfl⟩
      fun task => Or.inl (by rw [Subsingleton.elim task 0]; rfl)
    cases hsafe
  · intro hclean
    let call : Fin 1 × Label (Call ℕ Unit) Unit := (0, .call false ())
    have hdropped := hclean _ _ _ _
      ⟨[(0, .start (.send 5)), (0, .own), call, call, call, (0, .own), (0, .own), (0, .own)], rfl⟩
      fun task => Or.inr ⟨.sent, by rw [Subsingleton.elim task 0]; rfl⟩
    exact absurd hdropped.length_le (by decide)

end Mpsc

end AsyncMutex

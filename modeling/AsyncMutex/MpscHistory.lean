import AsyncMutex.Mpsc
import AsyncMutex.Turns
import AsyncMutex.FifoRefinement

/-!
# The books of the channel

Books beside the channel keep the accepted messages, in the order of their
accepting compare-exchanges, and the received ones.  A message goes through a
slot that its sender reserved, or `recv` takes it from a sender that waits; the
books show both ways as one line.
-/

namespace AsyncMutex

namespace Mpsc

variable {τ V ω : Type}

/-! ## The books -/

/-- An accepted message. -/
structure Entry (τ V : Type) where
  task : τ
  /-- How many sends the task had begun. -/
  number : ℕ
  msg : V

structure Log (τ V : Type) where
  begun : τ → ℕ
  /-- The message of the last send. -/
  current : τ → Option V
  /-- The accepted messages, without those that were dropped while queued. -/
  accepted : List (Entry τ V)
  received : List V

namespace Log

def empty : Log τ V := ⟨fun _ => 0, fun _ => none, [], []⟩

variable [DecidableEq τ]

def start (log : Log τ V) (task : τ) (msg : V) : Log τ V :=
  { log with
    begun := Function.update log.begun task (log.begun task + 1)
    current := Function.update log.current task (some msg) }

/-- The channel accepts the message of the task's send. -/
def accept (log : Log τ V) (task : τ) : Log τ V :=
  match log.current task with
  | some msg => { log with accepted := log.accepted ++ [⟨task, log.begun task, msg⟩] }
  | none => log

/-- A call begins. -/
def call (log : Log τ V) (task : τ) : Call V ω → Log τ V
  | .send msg => log.start task msg
  | _ => log

/-- The waiter of the task's send leaves the queue. -/
def withdraw (log : Log τ V) (task : τ) : Log τ V :=
  { log with
    accepted := log.accepted.filter fun entry =>
      ¬ (entry.task = task ∧ entry.number = log.begun task) }

def receive (log : Log τ V) (value : V) : Log τ V :=
  { log with received := log.received ++ [value] }

/-- The code of the task goes on. -/
def turn (log : Log τ V) (task : τ) (before after : Point τ V ω) : Log τ V :=
  match before, after with
  | .reserve _, .write _ => log.accept task
  | .wait _, .entered => log.accept task
  | .receive .unlock _ _, .ended (.received value) => log.receive value
  | _, _ => log

variable {S : Type}

/-- The books after a step of the channel. -/
def note (before : System S τ Unit SendState ω (Inner τ V ω) (Point τ V ω))
    (label : τ × Label (Call V ω) ω)
    (after : System S τ Unit SendState ω (Inner τ V ω) (Point τ V ω)) (log : Log τ V) :
    Log τ V :=
  match label.2 with
  | .start call => log.call label.1 call
  | .step _ =>
      match before.world.phase label.1 with
      | .dropCancel _ =>
          if before.world.awake label.1 then log else log.withdraw label.1
      | _ => log.turn label.1 (before.pc label.1) (after.pc label.1)
  | _ => log.turn label.1 (before.pc label.1) (after.pc label.1)

omit [DecidableEq τ] in
theorem turn_self (log : Log τ V) (task : τ) (point : Point τ V ω) :
    log.turn task point point = log := by
  cases point with
  | receive receive head result => cases receive <;> rfl
  | _ => rfl

theorem note_eq {before after : System S τ Unit SendState ω (Inner τ V ω) (Point τ V ω)}
    {task : τ} {label : Label (Call V ω) ω} {log : Log τ V}
    (hstart : ∀ call, label ≠ .start call)
    (hcancel : ∀ spurious futex, label = .step spurious →
      before.world.phase task ≠ .dropCancel futex) :
    log.note before (task, label) after = log.turn task (before.pc task) (after.pc task) := by
  cases label with
  | start call => exact absurd rfl (hstart call)
  | step spurious =>
      simp only [note]
      split
      case h_1 futex hphase => exact absurd hphase (hcancel spurious futex rfl)
      case h_2 => rfl
  | _ => rfl

/-- The last send of the task was accepted. -/
def Has (log : Log τ V) (task : τ) : Prop :=
  ∃ entry ∈ log.accepted, entry.task = task ∧ entry.number = log.begun task ∧
    log.current task = some entry.msg

/-- Each send is accepted at most once, and those that still ask were not. -/
structure Tidy (log : Log τ V) (asks : τ → Bool) : Prop where
  numbers : ∀ entry ∈ log.accepted, entry.number ≤ log.begun entry.task
  distinct : (log.accepted.map fun entry => (entry.task, entry.number)).Nodup
  asks : ∀ task, asks task = true → ∀ entry ∈ log.accepted, entry.task = task →
    entry.number < log.begun task

section Changes

variable {log : Log τ V} {asks asks' : τ → Bool} {task other : τ} {msg : V}

omit [DecidableEq τ] in
theorem accept_eq (hmsg : log.current task = some msg) :
    log.accept task =
      { log with accepted := log.accepted ++ [⟨task, log.begun task, msg⟩] } := by
  simp [accept, hmsg]

omit [DecidableEq τ] in
theorem Tidy.mono (htidy : log.Tidy asks)
    (hasks : ∀ task, asks' task = true → asks task = true) : log.Tidy asks' where
  numbers := htidy.numbers
  distinct := htidy.distinct
  asks task htask := htidy.asks task (hasks task htask)

omit [DecidableEq τ] in
theorem Tidy.accept (htidy : log.Tidy asks) (htask : asks task = true)
    (hmsg : log.current task = some msg)
    (hasks : ∀ other, asks' other = true → asks other = true ∧ other ≠ task) :
    (log.accept task).Tidy asks' := by
  rw [accept_eq hmsg]
  constructor
  · intro entry hentry
    rcases List.mem_append.mp hentry with hold | hnew
    · exact htidy.numbers entry hold
    · rw [List.mem_singleton.mp hnew]
  · rw [List.map_append, List.map_singleton]
    refine List.Nodup.append htidy.distinct (List.nodup_singleton _) ?_
    intro key hkey hnew
    obtain ⟨entry, hentry, rfl⟩ := List.mem_map.mp hkey
    simp only [List.mem_singleton, Prod.mk.injEq] at hnew
    have hlt := htidy.asks task htask entry hentry hnew.1
    rw [hnew.2] at hlt
    exact Nat.lt_irrefl _ hlt
  · intro other hother entry hentry hsame
    obtain ⟨hold, hne⟩ := hasks other hother
    rcases List.mem_append.mp hentry with hmem | hnew
    · exact htidy.asks other hold entry hmem hsame
    · rw [List.mem_singleton.mp hnew] at hsame
      exact absurd hsame.symm hne

theorem Tidy.start (htidy : log.Tidy asks)
    (hasks : ∀ other, asks' other = true → other ≠ task → asks other = true) :
    (log.start task msg).Tidy asks' := by
  have hbegun (other : τ) : log.begun other ≤ (log.start task msg).begun other := by
    simp only [Log.start, Function.update_apply]
    split
    case isTrue heq =>
      rw [heq]
      exact Nat.le_succ _
    case isFalse => exact Nat.le_refl _
  refine ⟨fun entry hentry => Nat.le_trans (htidy.numbers entry hentry) (hbegun _),
    htidy.distinct, fun other hother entry hentry hsame => ?_⟩
  by_cases heq : other = task
  · subst heq
    have hle := htidy.numbers entry hentry
    rw [hsame] at hle
    simp only [Log.start, Function.update_self]
    exact Nat.lt_succ_of_le hle
  · exact Nat.lt_of_lt_of_le (htidy.asks other (hasks other hother heq) entry hentry hsame)
      (hbegun other)

theorem Tidy.withdraw (htidy : log.Tidy asks) : (log.withdraw task).Tidy asks where
  numbers entry hentry := htidy.numbers entry (List.mem_of_mem_filter hentry)
  distinct := htidy.distinct.sublist (List.filter_sublist.map _)
  asks other hother entry hentry :=
    htidy.asks other hother entry (List.mem_of_mem_filter hentry)

omit [DecidableEq τ] in
theorem Has.accept (hhas : log.Has other) : (log.accept task).Has other := by
  cases hmsg : log.current task with
  | none => simpa [Log.accept, hmsg] using hhas
  | some msg =>
      obtain ⟨entry, hentry, hrest⟩ := hhas
      rw [accept_eq hmsg]
      exact ⟨entry, List.mem_append_left _ hentry, hrest⟩

omit [DecidableEq τ] in
theorem has_accept (hmsg : log.current task = some msg) : (log.accept task).Has task := by
  rw [accept_eq hmsg]
  exact ⟨_, List.mem_append_right _ (List.mem_singleton_self _), rfl, rfl, hmsg⟩

theorem Has.start (hhas : log.Has other) (hother : other ≠ task) :
    (log.start task msg).Has other := by
  obtain ⟨entry, hentry, htask, hnumber, hcurrent⟩ := hhas
  exact ⟨entry, hentry, htask, by simpa [Log.start, hother] using hnumber,
    by simpa [Log.start, hother] using hcurrent⟩

theorem Has.withdraw (hhas : log.Has other) (hother : other ≠ task) :
    (log.withdraw task).Has other := by
  obtain ⟨entry, hentry, htask, hrest⟩ := hhas
  refine ⟨entry, List.mem_filter.mpr ⟨hentry, ?_⟩, htask, hrest⟩
  simp [htask, hother]

end Changes

end Log

namespace Point

/-- The send has not yet been accepted. -/
def asks : Point τ V ω → Bool
  | .create _ => true
  | .waiter => true
  | .sendLoad => true
  | .reserve _ => true
  | .wait _ => true
  | _ => false

/-- The send was accepted, and will not be taken back. -/
def sent : Point τ V ω → Bool
  | .write _ => true
  | .fill _ => true
  | .swap => true
  | .wakeRecv _ => true
  | .ended .sent => true
  | .cancelWoken => true
  | _ => false

/-- What the books say about the message of a send that asks. -/
def Keeps (current message : Option V) : Point τ V ω → Prop
  | .create msg => current = some msg
  | .waiter => message = current
  | .sendLoad => message = current
  | .reserve _ => message = current
  | .wait _ => message = current
  | _ => True

/-- The point of `recv` and the value that it took. -/
def hold : Point τ V ω → Option (Receive τ × V)
  | .receive point _ result => some (point, result)
  | _ => none

/-- The value that `recv` has still to return. -/
def inHand (point : Point τ V ω) : List V :=
  (point.hold.map Prod.snd).toList

end Point

/-- The waiter whose message `recv` has still to take. -/
def Receive.inTurn : Receive τ → List τ
  | .load waiter => [waiter]
  | .advance waiter _ => [waiter]
  | .backfill waiter => [waiter]
  | _ => []

def Point.inTurn (point : Point τ V ω) : List τ :=
  point.hold.elim [] fun hold => hold.1.inTurn

theorem Point.inHand_of_hold {point : Point τ V ω} {receive : Receive τ} {value : V}
    (hhold : point.hold = some (receive, value)) : point.inHand = [value] := by
  rw [Point.inHand, hhold]
  rfl

theorem Point.inTurn_of_hold {point : Point τ V ω} {receive : Receive τ} {value : V}
    (hhold : point.hold = some (receive, value)) : point.inTurn = receive.inTurn := by
  rw [Point.inTurn, hhold]
  rfl

theorem Point.inHand_of_none {point : Point τ V ω} (hhold : point.hold = none) :
    point.inHand = [] := by
  rw [Point.inHand, hhold]
  rfl

theorem Point.inTurn_of_none {point : Point τ V ω} (hhold : point.hold = none) :
    point.inTurn = [] := by
  rw [Point.inTurn, hhold]
  rfl

theorem Point.receives_of_hold {point : Point τ V ω} (hhold : point.hold ≠ none) :
    point.receives = true := by
  cases point <;> first | rfl | exact absurd rfl hhold

theorem Point.keeps_of_not_asks {point : Point τ V ω} (hasks : point.asks = false)
    {current message : Option V} : point.Keeps current message := by
  cases point <;> trivial

/-! ## The line of messages -/

variable [DecidableEq τ]

theorem hold_update {pc : τ → Point τ V ω} {task : τ} {point : Point τ V ω}
    (hhold : point.hold = (pc task).hold) (other : τ) :
    (Function.update pc task point other).hold = (pc other).hold := by
  rw [Function.update_apply]
  split
  case isTrue heq => rw [heq, hhold]
  case isFalse => rfl

theorem inHand_update {pc : τ → Point τ V ω} {task : τ} {point : Point τ V ω}
    (hhold : point.hold = (pc task).hold) (other : τ) :
    (Function.update pc task point other).inHand = (pc other).inHand := by
  rw [Point.inHand, hold_update hhold, Point.inHand]

theorem inTurn_update {pc : τ → Point τ V ω} {task : τ} {point : Point τ V ω}
    (hhold : point.hold = (pc task).hold) (other : τ) :
    (Function.update pc task point other).inTurn = (pc other).inTurn := by
  rw [Point.inTurn, hold_update hhold, Point.inTurn]

omit [DecidableEq τ] in
theorem handing_iff {board : ChannelBoard τ} {receiver task : τ} {point : Point τ V ω} :
    Handing board receiver point task ↔
      (∃ value, point.hold = some (.wake, value)) ∧ board.handle receiver = some task := by
  unfold Handing
  refine and_congr_left fun _ => ⟨?_, ?_⟩
  · rintro ⟨head, result, rfl⟩
    exact ⟨result, rfl⟩
  · rintro ⟨value, hhold⟩
    cases point <;> cases hhold
    exact ⟨_, _, rfl⟩

def contents (board : ChannelBoard τ) : List τ := board.store.contents () 0

/-- The send of the task was accepted for good, also when the task has still to
see it. -/
def Sent (board : ChannelBoard τ) (receiver : τ) (pc : τ → Point τ V ω) (task : τ) : Prop :=
  (pc task).sent = true ∨ (pc task).pends = true ∧
    (board.awake task = true ∨ Handing board receiver (pc receiver) task)

/-- A task is not affected by the step of another one. -/
theorem Sent.of_ne {board board' : ChannelBoard τ} {receiver task other : τ}
    {pc : τ → Point τ V ω} {point : Point τ V ω}
    (hsent : Sent board' receiver (Function.update pc task point) other) (hother : other ≠ task)
    (hhold : point.hold = (pc task).hold) (hawake : board'.awake other = board.awake other)
    (hhandle : board'.handle = board.handle) : Sent board receiver pc other := by
  unfold Sent at hsent ⊢
  rw [Function.update_of_ne hother, hawake, handing_iff, hold_update hhold, hhandle] at hsent
  rw [handing_iff]
  exact hsent

/-- The accepted messages are the received ones, those in the slots and those of
the senders that wait. -/
structure Booked (log : Log τ V) (receiver : τ) (ledger : Ledger τ V) (board : ChannelBoard τ)
    (inner : Inner τ V ω) (pc : τ → Point τ V ω) (out slots waiting : List (Entry τ V)) :
    Prop where
  accepted : log.accepted = out ++ (slots ++ waiting)
  received : out.map Entry.msg = log.received ++ (pc receiver).inHand
  buffered : slots.map Entry.msg = ledger.values
  queued : waiting.map Entry.task = (pc receiver).inTurn ++ contents board
  messages : ∀ entry ∈ waiting, entry.number = log.begun entry.task ∧
    log.current entry.task = some entry.msg ∧ inner.message entry.task = some entry.msg
  tidy : log.Tidy fun task => (pc task).asks
  sent : ∀ task, Sent board receiver pc task → log.Has task
  keeps : ∀ task, (pc task).Keeps (log.current task) (inner.message task)

/-- The task with the `Receiver` goes on, and does not come to its wake. -/
theorem Sent.of_receiver {board board' : ChannelBoard τ} {receiver other : τ}
    {pc : τ → Point τ V ω} {point : Point τ V ω}
    (hother : Sent board' receiver (Function.update pc receiver point) other)
    (hsent : point.sent = false) (hpends : point.pends = false)
    (hwake : ∀ value, point.hold ≠ some (.wake, value))
    (hawake : board'.awake other = board.awake other) : Sent board receiver pc other := by
  unfold Sent at hother ⊢
  rw [handing_iff, Function.update_self, hawake] at hother
  by_cases heq : other = receiver
  · rw [heq, Function.update_self, hsent, hpends] at hother
    rcases hother with h | ⟨h, -⟩ <;> cases h
  · rw [Function.update_of_ne heq] at hother
    refine hother.imp_right fun h => ⟨h.1, h.2.imp_right ?_⟩
    rintro ⟨⟨value, hhold⟩, -⟩
    exact absurd hhold (hwake value)

theorem asks_update {pc : τ → Point τ V ω} {task : τ} {point : Point τ V ω}
    (hasks : point.asks = true → (pc task).asks = true) (other : τ)
    (hother : (Function.update pc task point other).asks = true) : (pc other).asks = true := by
  rw [Function.update_apply] at hother
  split at hother
  case isTrue heq =>
    rw [heq]
    exact hasks hother
  case isFalse => exact hother

namespace Booked

variable {log : Log τ V} {receiver receiver' : τ} {ledger ledger' : Ledger τ V}
  {board board' : ChannelBoard τ} {inner inner' : Inner τ V ω} {pc pc' : τ → Point τ V ω}
  {out slots waiting : List (Entry τ V)} {task : τ} {point : Point τ V ω}

omit [DecidableEq τ] in
/-- A step that the books do not see. -/
theorem keep (hbooked : Booked log receiver ledger board inner pc out slots waiting)
    (hhold : (pc' receiver').inHand = (pc receiver).inHand)
    (hline : (pc' receiver').inTurn ++ contents board' =
      (pc receiver).inTurn ++ contents board)
    (hvalues : ledger'.values = ledger.values)
    (hmessage : ∀ other ∈ (pc receiver).inTurn ++ contents board,
      inner'.message other = inner.message other)
    (hasks : ∀ other, (pc' other).asks = true → (pc other).asks = true)
    (hsent : ∀ other, Sent board' receiver' pc' other → Sent board receiver pc other)
    (hkeeps : ∀ other, (pc' other).Keeps (log.current other) (inner'.message other)) :
    Booked log receiver' ledger' board' inner' pc' out slots waiting where
  accepted := hbooked.accepted
  received := by rw [hhold, hbooked.received]
  buffered := by rw [hvalues, hbooked.buffered]
  queued := by rw [hline, hbooked.queued]
  messages entry hmem := by
    obtain ⟨hnumber, hcurrent, hvalue⟩ := hbooked.messages entry hmem
    refine ⟨hnumber, hcurrent, ?_⟩
    rw [hmessage entry.task ?_, hvalue]
    rw [← hbooked.queued]
    exact List.mem_map_of_mem hmem
  tidy := hbooked.tidy.mono hasks
  sent other hother := hbooked.sent other (hsent other hother)
  keeps := hkeeps

omit [DecidableEq τ] in
/-- The entries of the line belong to different tasks. -/
theorem nodup (hbooked : Booked log receiver ledger board inner pc out slots waiting) :
    ((pc receiver).inTurn ++ contents board).Nodup := by
  rw [← hbooked.queued]
  have hdistinct := hbooked.tidy.distinct
  rw [hbooked.accepted, List.map_append, List.map_append] at hdistinct
  have hwaiting := (List.nodup_append.mp (List.nodup_append.mp hdistinct).2.1).2.1
  refine List.Nodup.of_map (fun task => (task, log.begun task)) ?_
  rw [List.map_map]
  convert hwaiting using 1
  refine List.map_congr_left fun entry hentry => ?_
  simp [(hbooked.messages entry hentry).1]

/-- The channel accepts the message of a task: what the books know of it. -/
theorem accept (hbooked : Booked log receiver ledger board inner pc out slots waiting) {msg : V}
    (hpc : (pc task).asks = true) (hmsg : log.current task = some msg)
    (hpoint : point.asks = false) (hhold : point.hold = (pc task).hold)
    (hawake : ∀ other, other ≠ task → board'.awake other = board.awake other)
    (hhandle : board'.handle = board.handle) :
    ((log.accept task).Tidy fun other => (Function.update pc task point other).asks) ∧
      ∀ other, Sent board' receiver (Function.update pc task point) other →
        (log.accept task).Has other := by
  refine ⟨hbooked.tidy.accept hpc hmsg fun other hother => ?_, fun other hother => ?_⟩
  · by_cases heq : other = task
    · rw [heq, Function.update_self, hpoint] at hother
      cases hother
    · rw [Function.update_of_ne heq] at hother
      exact ⟨hother, heq⟩
  · by_cases heq : other = task
    · rw [heq]
      exact Log.has_accept hmsg
    · exact (hbooked.sent other (hother.of_ne heq hhold (hawake other heq) hhandle)).accept

theorem keeps_update (hbooked : Booked log receiver ledger board inner pc out slots waiting)
    (hmessage : ∀ other, other ≠ task → inner'.message other = inner.message other)
    (hkeeps : point.Keeps (log.current task) (inner'.message task)) (other : τ) :
    (Function.update pc task point other).Keeps (log.current other) (inner'.message other) := by
  by_cases heq : other = task
  · rw [heq, Function.update_self]
    exact hkeeps
  · rw [Function.update_of_ne heq, hmessage other heq]
    exact hbooked.keeps other

/-- A sender reserves the next slot. -/
theorem reserve (hbooked : Booked log receiver ledger board inner pc out slots waiting) {msg : V}
    (hpc : (pc task).asks = true) (hmsg : log.current task = some msg)
    (hpoint : point.asks = false) (hkeeps : point.Keeps (log.current task) (inner.message task))
    (hhold : point.hold = (pc task).hold)
    (hline : (pc receiver).inTurn ++ contents board = [])
    (hcontents : contents board' = contents board)
    (hvalues : ledger'.values = ledger.values ++ [msg])
    (hawake : board'.awake = board.awake) (hhandle : board'.handle = board.handle) :
    Booked (log.accept task) receiver ledger' board' inner (Function.update pc task point) out
      (slots ++ [⟨task, log.begun task, msg⟩]) waiting := by
  have hempty : waiting = [] := by
    rw [← List.map_eq_nil_iff (f := Entry.task), hbooked.queued, hline]
  obtain ⟨htidy, hsent⟩ := hbooked.accept hpc hmsg hpoint hhold
    (fun other _ => congrFun hawake other) hhandle
  have haccept := Log.accept_eq hmsg
  constructor
  · rw [haccept, hbooked.accepted, hempty]
    simp
  · rw [haccept, hbooked.received, inHand_update hhold]
  · rw [List.map_append, hbooked.buffered, hvalues]
    rfl
  · rw [hbooked.queued, inTurn_update hhold, hcontents]
  · rw [hempty]
    simp
  · exact htidy
  · exact hsent
  · rw [haccept]
    exact hbooked.keeps_update (fun _ _ => rfl) hkeeps

/-- A sender begins to wait. -/
theorem wait (hbooked : Booked log receiver ledger board inner pc out slots waiting) {msg : V}
    (hpc : (pc task).asks = true) (hmsg : log.current task = some msg)
    (hmessage : inner.message task = some msg)
    (hpoint : point.asks = false) (hkeeps : point.Keeps (log.current task) (inner.message task))
    (hhold : point.hold = (pc task).hold) (hcontents : contents board' = contents board ++ [task])
    (hvalues : ledger'.values = ledger.values)
    (hawake : board'.awake = board.awake) (hhandle : board'.handle = board.handle) :
    Booked (log.accept task) receiver ledger' board' inner (Function.update pc task point) out
      slots (waiting ++ [⟨task, log.begun task, msg⟩]) := by
  obtain ⟨htidy, hsent⟩ := hbooked.accept hpc hmsg hpoint hhold
    (fun other _ => congrFun hawake other) hhandle
  have haccept := Log.accept_eq hmsg
  constructor
  · rw [haccept, hbooked.accepted]
    simp
  · rw [haccept, hbooked.received, inHand_update hhold]
  · rw [hbooked.buffered, hvalues]
  · rw [List.map_append, hbooked.queued, inTurn_update hhold, hcontents, List.append_assoc]
    rfl
  · intro entry hentry
    rw [haccept]
    rcases List.mem_append.mp hentry with hold | hnew
    · exact hbooked.messages entry hold
    · rw [List.mem_singleton.mp hnew]
      exact ⟨rfl, hmsg, hmessage⟩
  · exact htidy
  · exact hsent
  · rw [haccept]
    exact hbooked.keeps_update (fun _ _ => rfl) hkeeps

/-- A task goes on, and the channel sees nothing of it. -/
theorem turn (hbooked : Booked log receiver ledger board inner pc out slots waiting)
    (hhold : point.hold = (pc task).hold) (hcontents : contents board' = contents board)
    (hvalues : ledger'.values = ledger.values)
    (hmessage : ∀ other, other ≠ task → inner'.message other = inner.message other)
    (hown : inner'.message task = inner.message task ∨
      task ∉ (pc receiver).inTurn ++ contents board)
    (hasks : point.asks = true → (pc task).asks = true)
    (hsent : point.sent = true → (pc task).sent = true ∨
      (pc task).pends = true ∧ board.awake task = true)
    (hpends : point.pends = true → (pc task).pends = true ∧
      board'.awake task = board.awake task)
    (hawake : ∀ other, other ≠ task → board'.awake other = board.awake other)
    (hhandle : board'.handle = board.handle)
    (hkeeps : point.Keeps (log.current task) (inner'.message task)) :
    Booked log receiver ledger' board' inner' (Function.update pc task point) out slots
      waiting := by
  refine hbooked.keep (inHand_update hhold receiver) ?_ hvalues ?_ (asks_update hasks) ?_
    (hbooked.keeps_update hmessage hkeeps)
  · rw [inTurn_update hhold, hcontents]
  · intro other hother
    by_cases heq : other = task
    · rw [heq] at hother ⊢
      exact hown.resolve_right fun hnot => hnot hother
    · exact hmessage other heq
  · intro other hother
    by_cases heq : other = task
    · rw [heq] at hother ⊢
      unfold Sent at hother ⊢
      rw [handing_iff, hold_update hhold, Function.update_self, hhandle] at hother
      rw [handing_iff]
      rcases hother with h | ⟨h, hwoken⟩
      · exact (hsent h).imp_right fun h => ⟨h.1, Or.inl h.2⟩
      · obtain ⟨hbefore, hsame⟩ := hpends h
        rw [hsame] at hwoken
        exact Or.inr ⟨hbefore, hwoken⟩
    · exact hother.of_ne heq hhold (hawake other heq) hhandle

/-- A step on the memory that touches no message. -/
theorem pass (hbooked : Booked log receiver ledger board inner pc out slots waiting)
    (hhold : point.hold = (pc task).hold) (hvalues : ledger'.values = ledger.values)
    (hmessage : inner'.message = inner.message) (hasks : point.asks = false)
    (hpends : point.pends = false) (hsent : point.sent = true → (pc task).sent = true) :
    Booked log receiver ledger' board inner' (Function.update pc task point) out slots
      waiting := by
  refine hbooked.turn hhold rfl hvalues (fun _ _ => by rw [hmessage])
    (Or.inl (by rw [hmessage])) (fun h => ?_) (fun h => Or.inl (hsent h)) (fun h => ?_)
    (fun _ _ => rfl) rfl (Point.keeps_of_not_asks hasks)
  · rw [hasks] at h
    cases h
  · rw [hpends] at h
    cases h

/-- `recv` goes on, and the line keeps its order. -/
theorem receive (hbooked : Booked log receiver ledger board inner pc out slots waiting)
    {before after : Receive τ} {result : V} (hpc : (pc receiver).hold = some (before, result))
    (hpoint : point.hold = some (after, result)) (hafter : after ≠ .wake)
    (hline : after.inTurn ++ contents board' = before.inTurn ++ contents board)
    (hvalues : ledger'.values = ledger.values) (hawake : board'.awake = board.awake) :
    Booked log receiver ledger' board' inner (Function.update pc receiver point) out slots
      waiting := by
  have hreceive : ∃ head, point = .receive after head result := by
    cases point <;> cases hpoint
    exact ⟨_, rfl⟩
  obtain ⟨head, rfl⟩ := hreceive
  refine hbooked.keep ?_ ?_ hvalues (fun _ _ => rfl) (asks_update fun h => by cases h) ?_
    (hbooked.keeps_update (fun _ _ => rfl) trivial)
  · rw [Function.update_self, Point.inHand_of_hold hpc, Point.inHand_of_hold hpoint]
  · rw [Function.update_self, Point.inTurn_of_hold hpc, Point.inTurn_of_hold hpoint, hline]
  · intro other hother
    refine hother.of_receiver rfl rfl (fun value hvalue => ?_) (congrFun hawake other)
    rw [hpoint] at hvalue
    cases hvalue
    exact hafter rfl

/-- `recv` takes the first value. -/
theorem take (hbooked : Booked log receiver ledger board inner pc out slots waiting) {value : V}
    (hpc : (pc receiver).hold = none) (hpoint : point.hold = some (.lock, value))
    (hvalues : ledger.values = value :: ledger'.values)
    (hmessage : inner'.message = inner.message) :
    ∃ entry rest, slots = entry :: rest ∧
      Booked log receiver ledger' board inner' (Function.update pc receiver point)
        (out ++ [entry]) rest waiting := by
  have hbuffered := hbooked.buffered
  rw [hvalues, List.map_eq_cons_iff] at hbuffered
  obtain ⟨entry, rest, rfl, hentry, hrest⟩ := hbuffered
  have hreceive : ∃ head, point = .receive .lock head value := by
    cases point <;> cases hpoint
    exact ⟨_, rfl⟩
  obtain ⟨head, rfl⟩ := hreceive
  refine ⟨entry, rest, rfl, ?_⟩
  constructor
  · rw [hbooked.accepted]
    simp
  · rw [List.map_append, hbooked.received, List.map_singleton, hentry, Function.update_self,
      Point.inHand_of_none hpc, Point.inHand_of_hold hpoint, List.append_nil]
  · exact hrest
  · rw [hbooked.queued, Function.update_self, Point.inTurn_of_none hpc,
      Point.inTurn_of_hold hpoint]
    rfl
  · rw [hmessage]
    exact hbooked.messages
  · exact hbooked.tidy.mono (asks_update fun h => by cases h)
  · intro other hother
    refine hbooked.sent other (hother.of_receiver rfl rfl (fun _ h => ?_) rfl)
    cases h
  · exact hbooked.keeps_update (fun other _ => congrFun hmessage other) trivial

/-- `recv` fills its slot with the message of the first sender in the line. -/
theorem fill (hbooked : Booked log receiver ledger board inner pc out slots waiting)
    {waiter : τ} {value result : V} (hpc : (pc receiver).hold = some (.backfill waiter, result))
    (hpoint : point.hold = some (.wake, result)) (hpends : (pc waiter).pends = true)
    (hhandle : board.handle receiver = some waiter)
    (hvalue : inner.message waiter = some value)
    (hvalues : ledger'.values = ledger.values ++ [value])
    (hmessage : ∀ other, other ≠ waiter → inner'.message other = inner.message other) :
    ∃ entry rest, waiting = entry :: rest ∧
      Booked log receiver ledger' board inner' (Function.update pc receiver point) out
        (slots ++ [entry]) rest := by
  have hnodup := hbooked.nodup
  have hqueued := hbooked.queued
  have hbefore : (pc receiver).inTurn = [waiter] := Point.inTurn_of_hold hpc
  rw [hbefore] at hnodup hqueued
  rw [List.singleton_append, List.map_eq_cons_iff] at hqueued
  obtain ⟨entry, rest, rfl, hentry, hrest⟩ := hqueued
  have hfirst := hbooked.messages entry List.mem_cons_self
  rw [hentry, hvalue] at hfirst
  obtain ⟨hnumber, hcurrent, hmsg⟩ := hfirst
  have hhas : log.Has waiter :=
    ⟨entry, by rw [hbooked.accepted]; simp, hentry, hnumber, hcurrent⟩
  have hreceive : ∃ head, point = .receive .wake head result := by
    cases point <;> cases hpoint
    exact ⟨_, rfl⟩
  obtain ⟨head, rfl⟩ := hreceive
  refine ⟨entry, rest, rfl, ?_⟩
  constructor
  · rw [hbooked.accepted]
    simp
  · rw [hbooked.received, Function.update_self, Point.inHand_of_hold hpc,
      Point.inHand_of_hold hpoint]
  · rw [List.map_append, hbooked.buffered, hvalues, List.map_singleton,
      ← Option.some.inj hmsg]
  · rw [hrest, Function.update_self, Point.inTurn_of_hold hpoint]
    rfl
  · intro other hother
    obtain ⟨hnumber, hcurrent, hmsg⟩ := hbooked.messages other (List.mem_cons_of_mem _ hother)
    refine ⟨hnumber, hcurrent, ?_⟩
    rw [hmessage, hmsg]
    rintro heq
    have hmem : other.task ∈ rest.map Entry.task := List.mem_map_of_mem hother
    rw [hrest, heq] at hmem
    exact (List.nodup_cons.mp hnodup).1 hmem
  · exact hbooked.tidy.mono (asks_update fun h => by cases h)
  · intro other hother
    by_cases hsame : other = waiter
    · rw [hsame]
      exact hhas
    · refine hbooked.sent other ?_
      unfold Sent at hother ⊢
      rw [handing_iff] at hother
      by_cases heq : other = receiver
      · rw [heq, Function.update_self] at hother
        rcases hother with h | ⟨h, -⟩ <;> cases h
      · rw [Function.update_of_ne heq] at hother
        refine hother.imp_right fun h => ⟨h.1, h.2.imp_right ?_⟩
        rintro ⟨-, hhanded⟩
        rw [hhandle] at hhanded
        exact absurd (Option.some.inj hhanded).symm hsame
  · intro other
    rw [Function.update_apply]
    split
    case isTrue => trivial
    case isFalse =>
      by_cases hsame : other = waiter
      · rw [hsame]
        cases hcase : pc waiter <;> first | trivial | (rw [hcase] at hpends; cases hpends)
      · rw [hmessage other hsame]
        exact hbooked.keeps other

/-- `recv` returns. -/
theorem finish (hbooked : Booked log receiver ledger board inner pc out slots waiting)
    {result : V} (hpc : (pc receiver).hold = some (.unlock, result))
    (hcontents : contents board' = contents board) (hvalues : ledger'.values = ledger.values)
    (hawake : board'.awake = board.awake) :
    Booked (log.receive result) receiver ledger' board' inner
      (Function.update pc receiver (.ended (.received result))) out slots waiting := by
  have htidy : log.Tidy fun other =>
      (Function.update pc receiver (.ended (.received result)) other).asks :=
    hbooked.tidy.mono (asks_update fun h => by cases h)
  constructor
  · exact hbooked.accepted
  · rw [hbooked.received, Function.update_self, Point.inHand_of_hold hpc]
    exact (List.append_nil _).symm
  · rw [hbooked.buffered, hvalues]
  · rw [hbooked.queued, Function.update_self, hcontents, Point.inTurn_of_hold hpc]
    rfl
  · exact hbooked.messages
  · exact ⟨htidy.numbers, htidy.distinct, htidy.asks⟩
  · intro other hother
    refine hbooked.sent other (hother.of_receiver rfl rfl (fun _ h => ?_)
      (congrFun hawake other))
    cases h
  · exact hbooked.keeps_update (fun _ _ => rfl) trivial

/-- A new send begins. -/
theorem start (hbooked : Booked log receiver ledger board inner pc out slots waiting) {msg : V}
    (hhold : (pc task).hold = none) (hmem : task ∉ (pc receiver).inTurn ++ contents board) :
    Booked (log.start task msg) receiver ledger board inner
      (Function.update pc task (.create msg)) out slots waiting := by
  have hsame : (Point.create msg : Point τ V ω).hold = (pc task).hold := hhold.symm
  constructor
  · exact hbooked.accepted
  · rw [inHand_update hsame]
    exact hbooked.received
  · exact hbooked.buffered
  · rw [hbooked.queued, inTurn_update hsame]
  · intro entry hentry
    have hne : entry.task ≠ task := by
      rintro heq
      rw [← hbooked.queued, ← heq] at hmem
      exact hmem (List.mem_map_of_mem hentry)
    simpa [Log.start, hne] using hbooked.messages entry hentry
  · refine hbooked.tidy.start fun other hother hne => ?_
    rwa [Function.update_of_ne hne] at hother
  · intro other hother
    by_cases heq : other = task
    · rw [heq] at hother
      unfold Sent at hother
      rw [Function.update_self] at hother
      rcases hother with h | ⟨h, -⟩ <;> cases h
    · exact (hbooked.sent other (hother.of_ne heq hsame rfl rfl)).start heq
  · intro other
    by_cases heq : other = task
    · rw [heq, Function.update_self]
      simp [Point.Keeps, Log.start]
    · rw [Function.update_of_ne heq]
      simpa [Log.start, heq] using hbooked.keeps other

/-- The waiter of the task leaves the line. -/
theorem withdraw (hbooked : Booked log receiver ledger board inner pc out slots waiting)
    (hmem : task ∈ contents board) (hpends : (pc task).pends = true)
    (hasleep : board.awake task = false) (hhanding : ¬ Handing board receiver (pc receiver) task)
    (hcontents : contents board' = (contents board).filter fun other => other ≠ task)
    (hawake : board'.awake = board.awake) (hhandle : board'.handle = board.handle) :
    Booked (log.withdraw task) receiver ledger board' inner pc out slots
      (waiting.filter fun entry => entry.task ≠ task) := by
  have hline := hbooked.nodup
  have hturn : task ∉ (pc receiver).inTurn := fun h =>
    List.disjoint_of_nodup_append hline h hmem
  obtain ⟨first, hfirst, htask⟩ : ∃ entry ∈ waiting, entry.task = task := by
    have hqueued : task ∈ waiting.map Entry.task := by
      rw [hbooked.queued]
      exact List.mem_append_right _ hmem
    exact List.mem_map.mp hqueued
  have hnumber : first.number = log.begun task := by
    rw [(hbooked.messages first hfirst).1, htask]
  have hdistinct := hbooked.tidy.distinct
  rw [hbooked.accepted, ← List.append_assoc, List.map_append] at hdistinct
  -- the entry of the waiter is the only one of its send
  have hothers : ∀ entry ∈ out ++ slots, ¬ (entry.task = task ∧
      entry.number = log.begun task) := by
    rintro entry hentry ⟨hsame, hlast⟩
    have hkey : (entry.task, entry.number) = (first.task, first.number) := by
      rw [hsame, hlast, htask, hnumber]
    have hleft : (first.task, first.number) ∈
        (out ++ slots).map fun entry => (entry.task, entry.number) := by
      rw [← hkey]
      exact List.mem_map_of_mem hentry
    exact List.disjoint_of_nodup_append hdistinct hleft (List.mem_map_of_mem hfirst)
  have hwaiting : (waiting.filter fun entry => ¬ (entry.task = task ∧
      entry.number = log.begun task)) = waiting.filter fun entry => entry.task ≠ task := by
    refine List.filter_congr fun entry hentry => ?_
    have hlast := (hbooked.messages entry hentry).1
    by_cases hsame : entry.task = task
    · rw [hsame] at hlast
      simp [hsame, hlast]
    · simp [hsame]
  constructor
  · change log.accepted.filter _ = _
    have hkept : ((out ++ slots).filter fun entry => ¬ (entry.task = task ∧
        entry.number = log.begun task)) = out ++ slots :=
      List.filter_eq_self.mpr fun entry hentry => decide_eq_true (hothers entry hentry)
    rw [hbooked.accepted, ← List.append_assoc, List.filter_append, hwaiting, hkept,
      List.append_assoc]
  · exact hbooked.received
  · exact hbooked.buffered
  · have hfilter : ((waiting.map Entry.task).filter fun other => other ≠ task) =
        (waiting.filter fun entry => entry.task ≠ task).map Entry.task := by
      rw [List.filter_map]
      rfl
    rw [← hfilter, hbooked.queued, List.filter_append, hcontents,
      List.filter_eq_self.mpr fun other hother => ?_]
    simp only [decide_eq_true_eq]
    rintro rfl
    exact hturn hother
  · exact fun entry hentry => hbooked.messages entry (List.mem_of_mem_filter hentry)
  · exact hbooked.tidy.withdraw
  · intro other hother
    unfold Sent at hother
    rw [hawake, handing_iff, hhandle, ← handing_iff] at hother
    have hne : other ≠ task := by
      rintro rfl
      rcases hother with h | ⟨-, h⟩
      · cases hpc : pc other <;> first | (rw [hpc] at hpends; cases hpends; done) |
          (rw [hpc] at h; cases h)
      · rcases h with h | h
        · rw [hasleep] at h
          cases h
        · exact hhanding h
    exact (hbooked.sent other hother).withdraw hne
  · exact hbooked.keeps

/-- The `Receiver` goes to another task. -/
theorem adopt (hbooked : Booked log receiver ledger board inner pc out slots waiting)
    (hreceiver : ∀ other, (pc other).hold ≠ none → other = receiver)
    (hreceiver' : ∀ other, (pc other).hold ≠ none → other = receiver') :
    Booked log receiver' ledger board inner pc out slots waiting := by
  by_cases hsame : receiver' = receiver
  · rw [hsame]
    exact hbooked
  · have hnone : (pc receiver).hold = none := by
      by_contra h
      exact hsame (hreceiver' receiver h).symm
    have hnone' : (pc receiver').hold = none := by
      by_contra h
      exact hsame (hreceiver receiver' h)
    refine hbooked.keep ?_ ?_ rfl (fun _ _ => rfl) (fun _ h => h) ?_ hbooked.keeps
    · rw [Point.inHand_of_none hnone, Point.inHand_of_none hnone']
    · rw [Point.inTurn_of_none hnone, Point.inTurn_of_none hnone']
    · intro other hother
      refine hother.imp_right fun h => ⟨h.1, h.2.imp_right fun hhanding => ?_⟩
      obtain ⟨⟨value, hhold⟩, -⟩ := handing_iff.mp hhanding
      rw [hnone'] at hhold
      cases hhold

end Booked

end Mpsc

end AsyncMutex

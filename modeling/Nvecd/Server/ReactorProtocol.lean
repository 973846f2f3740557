/-
  File:      Nvecd/Server/ReactorProtocol.lean
  Subject:   The protocol of a reactor connection holds along every run in which no decision is
             out of date when it is carried out.

  * `Flow` -- requests and responses go through their queues in order;
  * `Scheduling` -- at most one drainer, and one where requests wait;
  * `Interests` -- what is armed, or bound to be;
  * `Answers`, `Errors` -- what the queue of responses was given;
  * `connection_protocol`, and the runs in which it is broken.
-/
import Nvecd.Server.ReactorConnection

namespace Nvecd.Server

open Nvecd.Lib Nvecd.Storage

namespace Connection

variable {config : IOConfig} {s s' : Connection} {modified : Bool}

/-! ## 1. The pieces of a step -/

theorem setReadEnabled_true (s : Connection) (enabled : Bool) :
    s.setReadEnabled true enabled =
      { s with readable := if s.registered then enabled else s.readable } := by
  unfold setReadEnabled
  split
  · rename_i h
    rw [if_pos h.1]
  · rename_i h
    rw [if_neg fun hreg => h ⟨hreg, rfl⟩]

theorem setWrite_true (s : Connection) (armed : Bool) :
    s.setWrite true armed = { s with writable := if s.registered then armed else s.writable } := by
  unfold setWrite
  split
  · rename_i h
    rw [if_pos h.1]
  · rename_i h
    rw [if_neg fun hreg => h ⟨hreg, rfl⟩]

/-- **What the event loop does between two polls**: the inversion of `goStep` once no change of
    interest fails and `kept` is known. -/
theorem goStep_kept (s : Connection) : ∃ pc pendingWrite pendingError,
    s.kept = { s with reactor := pc, pendingWrite := pendingWrite, pendingError := pendingError } ∧
      (s.setWrite true true).kept =
        { s with
          writable := if s.registered then true else s.writable
          reactor := pc
          pendingWrite := pendingWrite
          pendingError := pendingError } ∧
      (pc = .idle ∨ pc = .write ∨ pc = .unregister) := by
  rw [setWrite_true]
  unfold kept
  split
  · exact ⟨.write, false, s.pendingError, rfl, rfl, .inr (.inl rfl)⟩
  · split
    · exact ⟨.unregister, s.pendingWrite, false, rfl, rfl, .inr (.inr rfl)⟩
    · exact ⟨.idle, s.pendingWrite, s.pendingError, rfl, rfl, .inl rfl⟩

end Connection

section Receive

variable (config : IOConfig)

/-- What the framing loop does to the queue, whether or not it overflows. -/
theorem frameLoop_appends (turns : Nat) (t : ReadTurn) :
    ∃ new, (frameLoop config turns t).buffers.requests = t.buffers.requests ++ new ∧
      (frameLoop config turns t).queued = (t.queued || !decide (new = [])) ∧
      (frameLoop config turns t).buffers.readPaused = t.buffers.readPaused := by
  induction turns generalizing t with
  | zero => exact ⟨[], by simp [frameLoop]⟩
  | succ turns ih =>
    rw [frameLoop]
    cases hstep : frameStep config t with
    | none => exact ⟨[], by simp⟩
    | some t' =>
      obtain ⟨new, happend, hnew, hpaused⟩ := ih t'
      obtain ⟨_, rfl | ⟨request, delimiter, rest, _, _, _, hqueued, _, hbuffers, _⟩⟩ :=
        frameStep_cases hstep
      · exact ⟨new, happend, hnew, hpaused⟩
      · refine ⟨(if request = [] then [] else [request]) ++ new, ?_, ?_, ?_⟩
        · simp only [happend, hbuffers, List.append_assoc]
        · rw [hnew, hqueued]
          by_cases hnil : request = []
          · simp [hnil]
          · simp [hnil]
        · simp only [hpaused, hbuffers]

theorem accept_frame (b : ReadBuffers) (budget : ReactorMemoryBudget) (chunk : Bytes) :
    (b.accept config budget chunk).buffers.requests = b.requests ∧
      (b.accept config budget chunk).queued = false ∧
      (b.accept config budget chunk).buffers.readPaused = b.readPaused := by
  rcases accept_spec b chunk with heq | ⟨budget', _, heq⟩
  · rw [heq]
    exact ⟨rfl, rfl, rfl⟩
  · rw [heq]
    exact ⟨rfl, rfl, rfl⟩

/-- What a chunk does to the queue of requests, whether or not it overflows. -/
theorem receive_appends (b : ReadBuffers) (budget : ReactorMemoryBudget)
    (chunk : Bytes) :
    ∃ new, (b.receive config budget chunk).buffers.requests = b.requests ++ new ∧
      ((b.receive config budget chunk).queued = false → new = []) ∧
      ((b.receive config budget chunk).buffers.readPaused = true → b.readPaused = true ∨
        kPendingFramesHighWatermark ≤ (b.requests ++ new).length) := by
  obtain ⟨hrequests, hqueued, hpaused⟩ := accept_frame config b budget chunk
  unfold ReadBuffers.receive
  dsimp only
  split
  · exact ⟨[], by rw [hrequests, List.append_nil], fun _ => rfl,
      fun h => .inl (hpaused ▸ h)⟩
  · obtain ⟨new, happend, hnew, hsame⟩ := frameLoop_appends config
      ((b.accept config budget chunk).buffers.accumulated.length + 1)
      (b.accept config budget chunk)
    rw [hrequests] at happend
    rw [hqueued, Bool.false_or] at hnew
    refine ⟨new, ?_, ?_, ?_⟩
    · rw [(pause_frame _).2.1, happend]
    · unfold ReadTurn.pause
      split
      · simp [hnew]
      · simp [hnew]
    · unfold ReadTurn.pause
      split
      · rename_i hmany
        exact fun _ => .inr (happend ▸ hmany)
      · exact fun h => .inl (by rw [← hpaused, ← hsame]; exact h)

/-- A reader that pauses goes on to. -/
theorem receive_paused (b : ReadBuffers) (budget : ReactorMemoryBudget) (chunk : Bytes)
    (h : b.readPaused = true) : (b.receive config budget chunk).buffers.readPaused = true := by
  obtain ⟨_, _, hpaused⟩ := accept_frame config b budget chunk
  unfold ReadBuffers.receive
  dsimp only
  split
  · rw [hpaused, h]
  · obtain ⟨_, _, _, hsame⟩ := frameLoop_appends config
      ((b.accept config budget chunk).buffers.accumulated.length + 1)
      (b.accept config budget chunk)
    unfold ReadTurn.pause
    split
    · rfl
    · rw [hsame, hpaused, h]

end Receive

/-! ## 2. What is seen of the workers -/

/-- How many are in their loop, and whether one resumes, arms, closes or has marked. -/
structure Crew where
  inLoop : Nat
  resumes : Bool
  arms : Bool
  closes : Bool
  marked : Bool

def crew (ws : List WorkerPc) : Crew where
  inLoop := ws.countP WorkerPc.inLoop
  resumes := ws.any WorkerPc.resumes
  arms := ws.any WorkerPc.arms
  closes := ws.any WorkerPc.closes
  marked := ws.any WorkerPc.marked

/-- One worker more. -/
@[grind] def Crew.plus (c : Crew) (pc : WorkerPc) : Crew where
  inLoop := c.inLoop + if pc.inLoop then 1 else 0
  resumes := c.resumes || pc.resumes
  arms := c.arms || pc.arms
  closes := c.closes || pc.closes
  marked := c.marked || pc.marked

theorem crew_insert (before behind : List WorkerPc) (pc : WorkerPc) :
    crew (before ++ pc :: behind) = (crew (before ++ behind)).plus pc := by
  simp only [crew, Crew.plus, List.countP_append, List.countP_cons, List.any_append,
    List.any_cons, Crew.mk.injEq]
  refine ⟨by omega, ?_, ?_, ?_, ?_⟩
  · rw [Bool.or_assoc, Bool.or_comm (behind.any _)]
  · rw [Bool.or_assoc, Bool.or_comm (behind.any _)]
  · rw [Bool.or_assoc, Bool.or_comm (behind.any _)]
  · rw [Bool.or_assoc, Bool.or_comm (behind.any _)]

theorem crew_snoc (ws : List WorkerPc) (pc : WorkerPc) :
    crew (ws ++ [pc]) = (crew ws).plus pc := by
  rw [crew_insert, List.append_nil]

/-- A worker that goes on, between those before and those behind it. -/
theorem set_split {ws : List WorkerPc} {i : Nat} {pc : WorkerPc} (h : ws[i]? = some pc) :
    ∃ before behind, ws = before ++ pc :: behind ∧
      ∀ pc', ws.set i pc' = before ++ pc' :: behind := by
  obtain ⟨hlt, rfl⟩ := List.getElem?_eq_some_iff.mp h
  refine ⟨ws.take i, ws.drop (i + 1), by simp, fun pc' => ?_⟩
  rw [List.set_eq_take_append_cons_drop, if_pos hlt]

namespace Connection

variable {config : IOConfig} {s s' : Connection} {input : ReactorInput} {result : RecvResult}
  {response : Bytes} {pc pc' : WorkerPc}

/-! ## 3. Requests and responses in order -/

/-- Requests and responses go through their queues in order. -/
structure Flow (s : Connection) : Prop where
  inOrder : s.framed = s.processed ++ s.read.requests
  queued : s.sent ++ s.write.responses = s.log.map Logged.framed
  paused : s.read.readPaused = true → kPendingFramesLowWatermark < s.read.requests.length

theorem enqueue_appends {w w' : WriteBuffers} {budget budget' : ReactorMemoryBudget}
    {framed : Bytes} (h : w.enqueue budget framed = some (w', budget')) :
    w'.responses = w.responses ++ [framed] := by
  unfold WriteBuffers.enqueue at h
  split at h
  · cases h
  · split at h
    · cases h
    · obtain ⟨rfl, _⟩ := Prod.mk.inj (Option.some.inj h)
      rfl

theorem Flow.reactor (h : s.Flow) (hok : s.Undisturbed (.reactor input))
    (hstep : s.reactorStep config input = some s') : s'.Flow := by
  obtain ⟨hinOrder, hqueued, hpaused⟩ := h
  obtain ⟨pc, w, e, hkept, hkept', hpc⟩ := s.goStep_kept
  rw [setWrite_true] at hkept'
  cases input with
  | go modified =>
    obtain ⟨rfl, _⟩ := hok
    simp only [reactorStep, goStep, setReadEnabled_true, setWrite_true, enqueueError, leaveLoop,
      hkept, hkept'] at hstep
    split at hstep
    all_goals constructor <;> grind -ring -linarith [enqueue_appends, Logged.framed]
  | recv result =>
    simp only [reactorStep, recvStep, receive, leaveLoop] at hstep
    split at hstep
    · rename_i queued hreactor
      cases result with
      | chunk bytes =>
        obtain ⟨new, happend, _, hmany⟩ := receive_appends config s.read s.budget bytes
        constructor <;> grind -ring -linarith [kPendingFramesLowWatermark, kPendingFramesHighWatermark]
      | _ => constructor <;> grind -ring -linarith
    · cases hstep
  | poll readable writable hangup =>
    obtain ⟨pc, w, e, hkept, _, _⟩ := goStep_kept { s with
      pendingWrite := writable, pendingError := hangup && !readable }
    simp only [reactorStep, pollStep, hkept] at hstep
    constructor <;> grind -ring -linarith
  | submit accepted =>
    simp only [reactorStep, submitStep] at hstep
    constructor <;> grind -ring -linarith
  | send result =>
    simp only [reactorStep, sendStep, hkept] at hstep
    constructor <;> grind -ring -linarith [WriteBuffers.send]

theorem Flow.worker (h : s.Flow) (hstep : s.workerStep true response pc = some (s', pc')) :
    s'.Flow := by
  obtain ⟨hinOrder, hqueued, hpaused⟩ := h
  unfold workerStep at hstep
  simp only [setReadEnabled_true, setWrite_true] at hstep
  split at hstep
  all_goals constructor <;> grind -ring -linarith [enqueue_appends, Logged.framed, ReadBuffers.dequeue]

/-! ## 4. Drains -/

/-- Some thread is bound to close the connection. -/
@[grind] def Bound (s : Connection) (c : Crew) : Prop :=
  s.Closing ∨ s.reactor.closes = true ∨ c.closes = true

/-- At most one drainer is in its loop, and one is or will be where requests wait. -/
structure Scheduling (s : Connection) (c : Crew) : Prop where
  taken : c.inLoop + (if s.reactor.submitting then 1 else 0) ≤ if s.drainScheduled then 1 else 0
  drains : s.drainScheduled = true → 0 < c.inLoop ∨ s.reactor.submitting = true ∨ s.Bound c
  waiting : s.read.requests ≠ [] → 0 < c.inLoop ∨ s.reactor.schedules = true ∨ s.Bound c

theorem Scheduling.reactor (h : s.Scheduling (crew s.workers))
    (hok : s.Undisturbed (.reactor input))
    (hstep : s.reactorStep config input = some s') : s'.Scheduling (crew s'.workers) := by
  obtain ⟨htaken, hdrains, hwaiting⟩ := h
  obtain ⟨pc, w, e, hkept, hkept', hpc⟩ := s.goStep_kept
  rw [setWrite_true] at hkept'
  cases input with
  | go modified =>
    obtain ⟨rfl, _⟩ := hok
    simp only [reactorStep, goStep, setReadEnabled_true, setWrite_true, enqueueError, leaveLoop,
      hkept, hkept'] at hstep
    split at hstep
    all_goals constructor <;> grind -ring -linarith
  | recv result =>
    simp only [reactorStep, recvStep, receive, leaveLoop] at hstep
    split at hstep
    · rename_i queued hreactor
      cases result with
      | chunk bytes =>
        obtain ⟨new, happend, hnew, _⟩ := receive_appends config s.read s.budget bytes
        constructor <;> grind -ring -linarith
      | _ => constructor <;> grind -ring -linarith
    · cases hstep
  | poll readable writable hangup =>
    obtain ⟨pc, w, e, hkept, _, _⟩ := goStep_kept { s with
      pendingWrite := writable, pendingError := hangup && !readable }
    simp only [reactorStep, pollStep, hkept] at hstep
    constructor <;> grind -ring -linarith
  | submit accepted =>
    simp only [reactorStep, submitStep] at hstep
    constructor <;> grind -ring -linarith [crew_snoc]
  | send result =>
    simp only [reactorStep, sendStep, hkept] at hstep
    constructor <;> grind -ring -linarith

theorem Scheduling.worker {c : Crew} (h : s.Scheduling (c.plus pc))
    (hstep : s.workerStep true response pc = some (s', pc')) : s'.Scheduling (c.plus pc') := by
  obtain ⟨htaken, hdrains, hwaiting⟩ := h
  unfold workerStep at hstep
  simp only [setReadEnabled_true, setWrite_true] at hstep
  split at hstep
  all_goals constructor <;> grind -ring -linarith [ReadBuffers.dequeue]

/-! ## 5. Interests -/

/-- What is armed, or bound to be. -/
structure Interests (s : Connection) (c : Crew) : Prop where
  marked : s.reactor.marked = true ∨ c.marked = true → s.closeAfterFlush = true
  eof : ∀ queued, s.reactor = .disarmRead queued → s.readEof = true
  armed : s.registered = true → s.write.responses ≠ [] →
    s.writable = true ∨ s.reactor.arms = true ∨ c.arms = true ∨
      s.reactor = .unregister ∨ s.reactor = .closing ∧ s.closeAfterFlush = true
  reading : s.registered = true → s.readEof = false → s.closeAfterFlush = false →
    s.read.readPaused = true ∨ s.readable = true ∨ c.resumes = true

theorem Interests.reactor (h : s.Interests (crew s.workers))
    (hok : s.Undisturbed (.reactor input)) (hstep : s.reactorStep config input = some s') :
    s'.Interests (crew s'.workers) := by
  obtain ⟨hmarked, heof, harmed, hreading⟩ := h
  obtain ⟨pc, w, e, hkept, hkept', hpc⟩ := s.goStep_kept
  rw [setWrite_true] at hkept'
  cases input with
  | go modified =>
    obtain ⟨rfl, hok⟩ := hok
    simp only [reactorStep, goStep, setReadEnabled_true, setWrite_true, enqueueError, leaveLoop,
      hkept, hkept'] at hstep
    have harms : s.workers.any WorkerPc.arms = (crew s.workers).arms := rfl
    have hresumes : s.workers.any WorkerPc.resumes = (crew s.workers).resumes := rfl
    split at hstep
    all_goals
      rename_i hreactor
      simp only [hreactor, UpToDate, harms, hresumes] at hok
      constructor <;> grind -ring -linarith [enqueue_appends]
  | recv result =>
    simp only [reactorStep, recvStep, receive, leaveLoop] at hstep
    split at hstep
    · rename_i queued hreactor
      cases result with
      | chunk bytes =>
        have hsame := receive_paused config s.read s.budget bytes
        constructor <;> grind -ring -linarith
      | _ => constructor <;> grind -ring -linarith
    · cases hstep
  | poll readable writable hangup =>
    obtain ⟨pc, w, e, hkept, _, _⟩ := goStep_kept { s with
      pendingWrite := writable, pendingError := hangup && !readable }
    simp only [reactorStep, pollStep, hkept] at hstep
    constructor <;> grind -ring -linarith
  | submit accepted =>
    simp only [reactorStep, submitStep] at hstep
    constructor <;> grind -ring -linarith [crew_snoc]
  | send result =>
    simp only [reactorStep, sendStep, hkept] at hstep
    constructor <;> grind -ring -linarith [WriteBuffers.send]

theorem Interests.worker {c : Crew} (h : s.Interests (c.plus pc))
    (hstep : s.workerStep true response pc = some (s', pc')) : s'.Interests (c.plus pc') := by
  obtain ⟨hmarked, heof, harmed, hreading⟩ := h
  unfold workerStep at hstep
  simp only [setReadEnabled_true, setWrite_true] at hstep
  split at hstep
  all_goals constructor <;> grind -ring -linarith [ReadBuffers.dequeue]

/-! ## 6. Answers -/

/-- The requests taken are those answered, the one in hand and the one whose response was refused;
    behind a refusal no drainer comes. -/
structure Answers (s : Connection) (hands : List Bytes) (c : Crew) : Prop where
  answered : s.processed = s.log.filterMap Logged.request ++ (hands ++ s.refused)
  refusal : s.refused ≠ [] → s.refused.length = 1 ∧ s.drainScheduled = true ∧ c.inLoop = 0 ∧
    s.reactor.submitting = false ∧ s.Bound c

theorem Answers.reactor {hands : List Bytes} (h : s.Answers hands (crew s.workers))
    (hok : s.Undisturbed (.reactor input)) (hstep : s.reactorStep config input = some s') :
    s'.Answers hands (crew s'.workers) := by
  obtain ⟨hanswered, hrefusal⟩ := h
  obtain ⟨pc, w, e, hkept, hkept', hpc⟩ := s.goStep_kept
  rw [setWrite_true] at hkept'
  cases input with
  | go modified =>
    obtain ⟨rfl, _⟩ := hok
    simp only [reactorStep, goStep, setReadEnabled_true, setWrite_true, enqueueError, leaveLoop,
      hkept, hkept'] at hstep
    split at hstep
    all_goals constructor <;> grind -ring -linarith [Logged.request]
  | recv result =>
    simp only [reactorStep, recvStep, receive, leaveLoop] at hstep
    split at hstep
    · cases result with
      | _ => constructor <;> grind -ring -linarith
    · cases hstep
  | poll readable writable hangup =>
    obtain ⟨pc, w, e, hkept, _, _⟩ := goStep_kept { s with
      pendingWrite := writable, pendingError := hangup && !readable }
    simp only [reactorStep, pollStep, hkept] at hstep
    constructor <;> grind -ring -linarith
  | submit accepted =>
    simp only [reactorStep, submitStep] at hstep
    constructor <;> grind -ring -linarith [crew_snoc]
  | send result =>
    simp only [reactorStep, sendStep, hkept] at hstep
    split at hstep
    · constructor <;> grind -ring -linarith
    · cases hstep

/-- A worker that is in its loop is alone in it; `others` is what the others have in hand. -/
theorem Answers.worker {others : List Bytes} {c : Crew} (hs : s.Scheduling (c.plus pc))
    (h : s.Answers (pc.hand.toList ++ others) (c.plus pc)) (hothers : pc.inLoop = true → others = [])
    (hstep : s.workerStep true response pc = some (s', pc')) :
    s'.Answers (pc'.hand.toList ++ others) (c.plus pc') := by
  obtain ⟨hanswered, hrefusal⟩ := h
  have htaken := hs.taken
  have hfree : pc.inLoop = true → s.refused = [] := by
    intro hloop
    by_contra hne
    have hnone := (hrefusal hne).2.2.1
    simp only [Crew.plus, hloop, if_true] at hnone
    omega
  cases pc with
  | drain =>
    obtain rfl := hothers rfl
    rw [hfree rfl] at hanswered hrefusal
    simp only [workerStep] at hstep
    cases hdequeue : s.read.dequeue with
    | none =>
      simp only [hdequeue, Option.some.injEq, Prod.mk.injEq] at hstep
      obtain ⟨rfl, rfl⟩ := hstep
      exact ⟨by rw [hanswered, hfree rfl]; rfl, fun hne => absurd (hfree rfl) hne⟩
    | some p =>
      obtain ⟨request, read, resumeRead⟩ := p
      simp only [hdequeue, Option.some.injEq, Prod.mk.injEq] at hstep
      obtain ⟨rfl, rfl⟩ := hstep
      refine ⟨?_, fun hne => absurd (hfree rfl) hne⟩
      have hhand : (if resumeRead then WorkerPc.resume request
          else WorkerPc.answer request).hand = some request := by
        split
        · rfl
        · rfl
      rw [hhand, hfree rfl]
      simp [hanswered, WorkerPc.hand]
  | answer request =>
    obtain rfl := hothers rfl
    rw [hfree rfl] at hanswered
    simp only [workerStep] at hstep
    cases henqueue : s.write.enqueue s.budget (normalizeResponse response) with
    | none =>
      -- the response is refused: the flag stays, and no drainer comes any more
      simp only [henqueue, Option.some.injEq, Prod.mk.injEq] at hstep
      obtain ⟨rfl, rfl⟩ := hstep
      have hzero : c.inLoop = 0 ∧ s.reactor.submitting = false ∧ s.drainScheduled = true := by
        grind -ring -linarith
      refine ⟨?_, fun _ => ⟨?_, hzero.2.2, ?_, hzero.2.1, .inr (.inr ?_)⟩⟩
      · simp [hanswered, hfree rfl, WorkerPc.hand]
      · simp [hfree rfl]
      · simp [Crew.plus, WorkerPc.inLoop, hzero.1]
      · simp [Crew.plus, WorkerPc.closes]
    | some p =>
      obtain ⟨write, budget⟩ := p
      simp only [henqueue, Option.some.injEq, Prod.mk.injEq] at hstep
      obtain ⟨rfl, rfl⟩ := hstep
      refine ⟨?_, fun hne => absurd (hfree rfl) hne⟩
      simp [hanswered, hfree rfl, WorkerPc.hand, Logged.request]
  | _ =>
    simp only [workerStep, setReadEnabled_true, setWrite_true] at hstep
    constructor <;> grind -ring -linarith

/-! ## 7. Errors -/

/-- The log has answers only. -/
def Answering (log : List Logged) : Prop := ∀ x ∈ log, x.request.isSome = true

/-- The log has answers and one error behind them. -/
def EndsInError (log : List Logged) : Prop :=
  ∃ answers text, log = answers ++ [.error text] ∧ Answering answers

theorem Answering.error {log : List Logged} (h : Answering log) (text : Bytes) :
    EndsInError (log ++ [.error text]) := ⟨log, text, rfl, h⟩

theorem Answering.answer {log : List Logged} (h : Answering log) (request response : Bytes) :
    Answering (log ++ [.answer request response]) := by
  intro x hx
  rcases List.mem_append.mp hx with hin | hlast
  · exact h x hin
  · rw [List.mem_singleton.mp hlast]
    rfl

/-- Behind an error: no request is framed, taken or in hand, and reading is off or about to be. -/
structure Ended (s : Connection) (hands : List Bytes) (c : Crew) : Prop where
  begins : s.reactor.begins = false
  hands : hands = []
  idle : s.read.requests = [] ∨ c.inLoop = 0
  deaf : s.registered = true → s.readable = false ∨ s.reactor.stopsReading = true

theorem Ended.reactor {hands : List Bytes} (h : s.Ended hands (crew s.workers))
    (hok : s.Undisturbed (.reactor input)) (hstep : s.reactorStep config input = some s') :
    s'.Ended hands (crew s'.workers) ∧ s'.log = s.log := by
  obtain ⟨hbegins, hhands, hidle, hdeaf⟩ := h
  obtain ⟨pc, w, e, hkept, hkept', hpc⟩ := s.goStep_kept
  rw [setWrite_true] at hkept'
  cases input with
  | go modified =>
    obtain ⟨rfl, _⟩ := hok
    simp only [reactorStep, goStep, setReadEnabled_true, setWrite_true, enqueueError, leaveLoop,
      hkept, hkept'] at hstep
    split at hstep
    all_goals refine ⟨⟨?_, ?_, ?_, ?_⟩, ?_⟩ <;> grind -ring -linarith
  | recv result =>
    simp only [reactorStep, recvStep] at hstep
    split at hstep
    · rename_i queued hreactor
      rw [hreactor] at hbegins
      cases hbegins
    · cases hstep
  | poll readable writable hangup =>
    obtain ⟨pc, w, e, hkept, _, _⟩ := goStep_kept { s with
      pendingWrite := writable, pendingError := hangup && !readable }
    simp only [reactorStep, pollStep, hkept] at hstep
    refine ⟨⟨?_, ?_, ?_, ?_⟩, ?_⟩ <;> grind -ring -linarith
  | submit accepted =>
    simp only [reactorStep, submitStep] at hstep
    split at hstep
    · rename_i hreactor
      rw [hreactor] at hbegins
      cases hbegins
    · cases hstep
  | send result =>
    simp only [reactorStep, sendStep, hkept] at hstep
    refine ⟨⟨?_, ?_, ?_, ?_⟩, ?_⟩ <;> grind -ring -linarith

theorem Ended.worker {others : List Bytes} {c : Crew}
    (h : s.Ended (pc.hand.toList ++ others) (c.plus pc))
    (hstep : s.workerStep true response pc = some (s', pc')) :
    s'.Ended (pc'.hand.toList ++ others) (c.plus pc') ∧ s'.log = s.log := by
  obtain ⟨hbegins, hhands, hidle, hdeaf⟩ := h
  unfold workerStep at hstep
  simp only [setReadEnabled_true, setWrite_true] at hstep
  split at hstep
  all_goals refine ⟨⟨?_, ?_, ?_, ?_⟩, ?_⟩ <;> grind -ring -linarith [ReadBuffers.dequeue]

/-- Before an error: a step of the event loop queues none, or the first. -/
theorem Answering.reactor (h : Answering s.log) (hok : s.Undisturbed (.reactor input))
    (hstep : s.reactorStep config input = some s') :
    Answering s'.log ∨ EndsInError s'.log ∧
      s'.Ended (s'.workers.filterMap WorkerPc.hand) (crew s'.workers) := by
  obtain ⟨pc, w, e, hkept, hkept', hpc⟩ := s.goStep_kept
  rw [setWrite_true] at hkept'
  cases input with
  | go modified =>
    obtain ⟨rfl, hok⟩ := hok
    by_cases herror : ∃ busy, s.reactor = .error busy
    · obtain ⟨busy, hreactor⟩ := herror
      simp only [reactorStep, goStep, hreactor, enqueueError, UpToDate] at hstep hok
      split at hstep
      · obtain rfl := Option.some.inj hstep
        exact .inl h
      · obtain rfl := Option.some.inj hstep
        exact .inr ⟨h.error _, rfl, hok.1, hok.2, fun _ => .inr rfl⟩
    · left
      simp only [reactorStep, goStep, setReadEnabled_true, setWrite_true, leaveLoop, hkept,
        hkept'] at hstep
      split at hstep
      all_goals grind -ring -linarith
  | recv result =>
    simp only [reactorStep, recvStep, receive, leaveLoop] at hstep
    grind -ring -linarith
  | poll readable writable hangup =>
    obtain ⟨pc, w, e, hkept, _, _⟩ := goStep_kept { s with
      pendingWrite := writable, pendingError := hangup && !readable }
    simp only [reactorStep, pollStep, hkept] at hstep
    grind -ring -linarith
  | submit accepted =>
    simp only [reactorStep, submitStep] at hstep
    grind -ring -linarith
  | send result =>
    simp only [reactorStep, sendStep, hkept] at hstep
    grind -ring -linarith

theorem Answering.worker (h : Answering s.log)
    (hstep : s.workerStep true response pc = some (s', pc')) : Answering s'.log := by
  unfold workerStep at hstep
  simp only [setReadEnabled_true, setWrite_true] at hstep
  split at hstep
  all_goals grind -ring -linarith [Answering.answer]

/-! ## 8. Runs -/

/-- **The invariant.** -/
structure Inv (s : Connection) : Prop where
  flow : s.Flow
  scheduling : s.Scheduling (crew s.workers)
  interests : s.Interests (crew s.workers)
  answers : s.Answers (s.workers.filterMap WorkerPc.hand) (crew s.workers)
  errors : Answering s.log ∨ EndsInError s.log ∧
    s.Ended (s.workers.filterMap WorkerPc.hand) (crew s.workers)

/-- The event loop adds a worker that has nothing in hand, or none. -/
theorem reactorStep_hands (hok : s.Undisturbed (.reactor input))
    (hstep : s.reactorStep config input = some s') :
    s'.workers.filterMap WorkerPc.hand = s.workers.filterMap WorkerPc.hand := by
  obtain ⟨pc, w, e, hkept, hkept', hpc⟩ := s.goStep_kept
  rw [setWrite_true] at hkept'
  cases input with
  | go modified =>
    obtain ⟨rfl, _⟩ := hok
    simp only [reactorStep, goStep, setReadEnabled_true, setWrite_true, enqueueError, leaveLoop,
      hkept, hkept'] at hstep
    split at hstep
    all_goals grind -ring -linarith
  | recv result =>
    simp only [reactorStep, recvStep, receive, leaveLoop] at hstep
    grind -ring -linarith
  | poll readable writable hangup =>
    obtain ⟨pc, w, e, hkept, _, _⟩ := goStep_kept { s with
      pendingWrite := writable, pendingError := hangup && !readable }
    simp only [reactorStep, pollStep, hkept] at hstep
    grind -ring -linarith
  | submit accepted =>
    simp only [reactorStep, submitStep] at hstep
    grind -ring -linarith
  | send result =>
    simp only [reactorStep, sendStep, hkept] at hstep
    grind -ring -linarith

/-- A worker outside its loop takes nothing in hand. -/
theorem workerStep_hand (h : pc.inLoop = false)
    (hstep : s.workerStep true response pc = some (s', pc')) : pc.hand = none ∧ pc'.hand = none := by
  unfold workerStep at hstep
  split at hstep
  all_goals grind -ring -linarith

theorem hands_eq_nil {ws : List WorkerPc} (h : ws.countP WorkerPc.inLoop = 0) :
    ws.filterMap WorkerPc.hand = [] := by
  rw [List.filterMap_eq_nil_iff]
  intro w hw
  have hout := List.countP_eq_zero.mp h w hw
  cases w with
  | drain => rfl
  | resume request => exact absurd rfl hout
  | answer request => exact absurd rfl hout
  | _ => rfl

theorem Inv.reactor (h : s.Inv) (hok : s.Undisturbed (.reactor input))
    (hstep : s.reactorStep config input = some s') : s'.Inv := by
  have hhands := reactorStep_hands hok hstep
  refine ⟨h.flow.reactor hok hstep, h.scheduling.reactor hok hstep, h.interests.reactor hok hstep,
    ?_, ?_⟩
  · rw [hhands]
    exact h.answers.reactor hok hstep
  · rcases h.errors with hnone | ⟨herror, hended⟩
    · exact hnone.reactor hok hstep
    · obtain ⟨hended', hlog⟩ := hended.reactor hok hstep
      rw [hhands, hlog]
      exact .inr ⟨herror, hended'⟩

theorem Inv.worker {i : Nat} (h : s.Inv) (hpc : s.workers[i]? = some pc)
    (hstep : s.workerStep true response pc = some (s', pc')) :
    ({ s' with workers := s.workers.set i pc' } : Connection).Inv := by
  obtain ⟨before, behind, hsplit, hset⟩ := set_split hpc
  obtain ⟨hflow, hscheduling, hinterests, hanswers, herrors⟩ := h
  rw [hsplit, crew_insert] at hscheduling hinterests hanswers herrors
  have hothers : pc.inLoop = true → (before ++ behind).filterMap WorkerPc.hand = [] := by
    intro hloop
    refine hands_eq_nil ?_
    have htaken := Nat.le_trans (Nat.le_add_right _ _) hscheduling.taken
    simp only [Crew.plus, hloop, if_true, crew] at htaken
    have hone : (if s.drainScheduled = true then 1 else 0) ≤ 1 := by
      split
      · exact Nat.le_refl 1
      · exact Nat.zero_le 1
    omega
  have hhands : ∀ q : WorkerPc, (pc.inLoop = false → q.hand = none) →
      (before ++ q :: behind).filterMap WorkerPc.hand =
        q.hand.toList ++ (before ++ behind).filterMap WorkerPc.hand := by
    intro q hq
    simp only [List.filterMap_append, List.filterMap_cons]
    cases hloop : pc.inLoop with
    | true =>
      have hnil := hothers hloop
      rw [List.filterMap_append, List.append_eq_nil_iff] at hnil
      cases hhand : q.hand with
      | none => simp [hnil]
      | some request => simp [hnil]
    | false => simp [hq hloop]
  rw [hhands pc fun hloop => (workerStep_hand hloop hstep).1] at hanswers herrors
  have hanswers' := hanswers.worker hscheduling hothers hstep
  have hscheduling' := hscheduling.worker hstep
  have hinterests' := hinterests.worker hstep
  have hflow' := hflow.worker hstep
  refine ⟨⟨hflow'.inOrder, hflow'.queued, hflow'.paused⟩, ?_, ?_, ?_, ?_⟩
  · rw [hset, crew_insert]
    exact ⟨hscheduling'.taken, hscheduling'.drains, hscheduling'.waiting⟩
  · rw [hset, crew_insert]
    exact ⟨hinterests'.marked, hinterests'.eof, hinterests'.armed, hinterests'.reading⟩
  · rw [hset, crew_insert, hhands pc' fun hloop => (workerStep_hand hloop hstep).2]
    exact ⟨hanswers'.answered, hanswers'.refusal⟩
  · rw [hset, crew_insert, hhands pc' fun hloop => (workerStep_hand hloop hstep).2]
    rcases herrors with hnone | ⟨herror, hended⟩
    · have hnone' := hnone.worker hstep
      exact .inl hnone'
    · obtain ⟨hended', hlog⟩ := hended.worker hstep
      refine .inr ⟨?_, hended'.begins, hended'.hands, hended'.idle, hended'.deaf⟩
      show EndsInError s'.log
      rw [hlog]
      exact herror

/-- **One step** at which no decision is out of date. -/
theorem Inv.step (h : s.Inv) (a : ConnectionAction) (hok : s.Undisturbed a)
    (hstep : s.step config a = some s') : s'.Inv := by
  cases a with
  | reactor input => exact h.reactor hok hstep
  | worker i modified response =>
    obtain rfl : modified = true := hok
    simp only [Connection.step] at hstep
    split at hstep
    · cases hstep
    · rename_i pc hpc
      split at hstep
      · cases hstep
      · rename_i t pc' hworker
        obtain rfl := Option.some.inj hstep
        exact h.worker hpc hworker
  | detach =>
    obtain rfl := Option.some.inj hstep
    obtain ⟨⟨_, _, _⟩, ⟨_, _, _⟩, ⟨_, _, _, _⟩, ⟨_, _⟩, herrors⟩ := h
    refine ⟨⟨?_, ?_, ?_⟩, ⟨?_, ?_, ?_⟩, ⟨?_, ?_, ?_, ?_⟩, ⟨?_, ?_⟩, ?errors⟩
    case errors =>
      rcases herrors with hnone | ⟨herror, hended⟩
      · exact .inl hnone
      · exact .inr ⟨herror, hended.begins, hended.hands, hended.idle, nofun⟩
    all_goals grind -ring -linarith
  | others usedBytes =>
    obtain rfl := Option.some.inj hstep
    obtain ⟨hflow, hscheduling, hinterests, hanswers, herrors⟩ := h
    refine ⟨⟨hflow.inOrder, hflow.queued, hflow.paused⟩,
      ⟨hscheduling.taken, hscheduling.drains, hscheduling.waiting⟩,
      ⟨hinterests.marked, hinterests.eof, hinterests.armed, hinterests.reading⟩,
      ⟨hanswers.answered, hanswers.refusal⟩, ?_⟩
    rcases herrors with hnone | ⟨herror, hended⟩
    · exact .inl hnone
    · exact .inr ⟨herror, hended.begins, hended.hands, hended.idle, hended.deaf⟩

theorem inv_start (budget : ReactorMemoryBudget) : ({ budget := budget } : Connection).Inv := by
  refine ⟨⟨rfl, rfl, nofun⟩, ⟨Nat.le_refl 0, nofun, fun h => absurd rfl h⟩,
    ⟨?_, nofun, fun _ h => absurd rfl h, fun _ _ _ => .inr (.inl rfl)⟩,
    ⟨rfl, fun h => absurd rfl h⟩, .inl fun x hx => absurd hx List.not_mem_nil⟩
  rintro (h | h)
  · cases h
  · cases h

/-- Answers behind each other are a list of requests with their responses. -/
theorem Answering.pairs {log : List Logged} (h : Answering log) :
    ∃ answered : List (Bytes × Bytes), log = answered.map (fun p => Logged.answer p.1 p.2) ∧
      log.filterMap Logged.request = answered.map Prod.fst := by
  induction log with
  | nil => exact ⟨[], rfl, rfl⟩
  | cons x log ih =>
    obtain ⟨answered, hlog, hrequests⟩ := ih fun y hy => h y (List.mem_cons_of_mem x hy)
    have hx := h x List.mem_cons_self
    cases x with
    | answer request response =>
      refine ⟨(request, response) :: answered, by rw [hlog]; rfl, ?_⟩
      rw [List.filterMap_cons, hrequests]
      rfl
    | error text => cases hx

/-- Where no step is half done, no thread is bound to anything. -/
theorem Quiet.workers (hquiet : s.Quiet) :
    (∀ c, s.Bound c → c.closes = false → s.Closing) ∧ (crew s.workers).closes = false ∧
      (crew s.workers).arms = false ∧ (crew s.workers).resumes = false ∧
      (0 < (crew s.workers).inLoop → WorkerPc.drain ∈ s.workers) ∧
      s.workers.filterMap WorkerPc.hand = [] := by
  obtain ⟨hreactor, hworkers⟩ := hquiet
  have hnone : ∀ f : WorkerPc → Bool, f .drain = false → f .done = false →
      s.workers.any f = false := by
    intro f hdrain hdone
    rw [List.any_eq_false]
    intro w hw
    rcases hworkers w hw with rfl | rfl
    · simp [hdrain]
    · simp [hdone]
  refine ⟨fun c hbound hc => ?_, hnone _ rfl rfl, hnone _ rfl rfl, hnone _ rfl rfl, fun hpos => ?_,
    ?_⟩
  · rcases hbound with hclosing | hcloses | hcloses
    · exact hclosing
    · rw [hreactor] at hcloses
      cases hcloses
    · rw [hc] at hcloses
      cases hcloses
  · obtain ⟨w, hw, hloop⟩ := List.countP_pos_iff.mp hpos
    rcases hworkers w hw with rfl | rfl
    · exact hw
    · cases hloop
  · rw [List.filterMap_eq_nil_iff]
    intro w hw
    rcases hworkers w hw with rfl | rfl
    · rfl
    · rfl

theorem length_hands_le (ws : List WorkerPc) :
    (ws.filterMap WorkerPc.hand).length ≤ ws.countP WorkerPc.inLoop := by
  induction ws with
  | nil => exact Nat.le_refl 0
  | cons w ws ih =>
    rw [List.filterMap_cons, List.countP_cons]
    cases w with
    | resume request => exact Nat.succ_le_succ ih
    | answer request => exact Nat.succ_le_succ ih
    | _ => exact Nat.le_trans ih (Nat.le_add_right _ _)

theorem Scheduling.inLoop_le {c : Crew} (h : s.Scheduling c) : c.inLoop ≤ 1 := by
  refine Nat.le_trans (Nat.le_trans (Nat.le_add_right _ _) h.taken) ?_
  split
  · exact Nat.le_refl 1
  · exact Nat.zero_le 1

/-- The log: answers, and at most one error behind them. -/
theorem Inv.log_eq (h : s.Inv) : ∃ (answered : List (Bytes × Bytes)) (errors : List Bytes),
    s.log = answered.map (fun p => Logged.answer p.1 p.2) ++ errors.map Logged.error ∧
      errors.length ≤ 1 ∧ s.log.filterMap Logged.request = answered.map Prod.fst := by
  rcases h.errors with hnone | ⟨⟨answers, text, hlog, hanswers⟩, _⟩
  · obtain ⟨answered, hlog, hrequests⟩ := hnone.pairs
    exact ⟨answered, [], by simpa using hlog, Nat.zero_le 1, hrequests⟩
  · obtain ⟨answered, heq, hrequests⟩ := hanswers.pairs
    refine ⟨answered, [text], by rw [hlog, heq]; rfl, Nat.le_refl 1, ?_⟩
    rw [hlog, List.filterMap_append, hrequests]
    exact List.append_nil _

theorem Inv.protocol (h : s.Inv) : s.Protocol where
  oneDrainer := h.scheduling.inLoop_le
  inOrder := h.flow.inOrder
  queued := h.flow.queued
  answers := by
    obtain ⟨answered, errors, hlog, herrors, hrequests⟩ := h.log_eq
    have hprocessed := h.answers.answered
    rw [hrequests] at hprocessed
    refine ⟨answered, errors, _, hlog, herrors, hprocessed, ?_, fun hquiet => ?_⟩
    · have hhands := length_hands_le s.workers
      by_cases hnil : s.refused = []
      · rw [hnil, List.append_nil]
        exact Nat.le_trans hhands h.scheduling.inLoop_le
      · obtain ⟨hone, _, hidle, _, _⟩ := h.answers.refusal hnil
        rw [hands_eq_nil hidle, List.nil_append, hone]
    · obtain ⟨hbound, hcloses, _, _, _, hhands⟩ := hquiet.workers
      by_cases hnil : s.refused = []
      · exact .inl (by rw [hhands, hnil]; rfl)
      · exact .inr (hbound _ (h.answers.refusal hnil).2.2.2.2 hcloses)
  scheduled hquiet hwait := by
    obtain ⟨hbound, hcloses, _, _, hdrain, _⟩ := hquiet.workers
    rcases h.scheduling.waiting hwait with hpos | hschedules | hb
    · exact .inl (hdrain hpos)
    · rw [hquiet.1] at hschedules
      cases hschedules
    · exact .inr (hbound _ hb hcloses)
  writeArmed hquiet hreg hqueue := by
    obtain ⟨_, _, harms, _, _, _⟩ := hquiet.workers
    have harmed := h.interests.armed hreg hqueue
    rw [harms, hquiet.1] at harmed
    simpa [ReactorPc.arms] using harmed
  readArmed hquiet hfew heof hopen := by
    obtain ⟨_, _, _, hresumes, _, _⟩ := hquiet.workers
    rw [Closing, not_or, Bool.not_eq_true, Bool.not_eq_false] at hopen
    rcases h.interests.reading hopen.2 heof hopen.1 with hpaused | hreadable | hresume
    · have hmany := h.flow.paused hpaused
      omega
    · exact hreadable
    · rw [hresumes] at hresume
      cases hresume

end Connection

/-- **The protocol of a connection** in every state reached by steps at which no decision is out
    of date. -/
theorem connection_protocol (config : IOConfig) (budget : ReactorMemoryBudget)
    (actions : List ConnectionAction) (s : Connection)
    (hok : Meets (Connection.step config) Connection.Undisturbed { budget := budget } actions)
    (hrun : run (Connection.step config) { budget := budget } actions = some s) : s.Protocol := by
  have hinv : s.Inv := run_inv_of_meets (fun _ a _ h ha hstep => h.step a ha hstep)
    (Connection.inv_start budget) hok hrun
  exact hinv.protocol

/-- Two requests arrive; a worker answers the first, and its answer is sent. -/
def twoRequests : List ConnectionAction :=
  [.reactor (.poll true false false), .reactor (.recv (.chunk [97, 10, 98, 10])),
    .reactor (.recv .again), .reactor (.go true), .reactor (.submit true), .reactor (.go true),
    .worker 0 true [], .worker 0 true [79, 75], .worker 0 true [],
    .reactor (.poll false true false), .reactor (.send (.sent 4)), .reactor (.send .drained)]

theorem connection_protocol_twoRequests :
    ∃ s, run (Connection.step defaultIOConfig) { budget := defaultBudget } twoRequests = some s ∧
      s.processed = [[97]] ∧ s.Protocol := by
  refine ⟨_, rfl, rfl, ?_⟩
  exact connection_protocol defaultIOConfig defaultBudget twoRequests _ (by decide +kernel) rfl

/-- The second answer is queued between the decision to disarm writing and its execution. -/
def lostWakeup : List ConnectionAction :=
  twoRequests ++ [.worker 0 true [], .worker 0 true [79, 75], .worker 0 true [],
    .reactor (.go true), .reactor (.go true)]

/-- A request is too large while a worker has the one before it in hand. -/
def earlyError : List ConnectionAction :=
  [.reactor (.poll true false false), .reactor (.recv (.chunk [97, 10])),
    .reactor (.recv .again), .reactor (.go true), .reactor (.submit true), .reactor (.go true),
    .worker 0 true [], .reactor (.poll true false false),
    .reactor (.recv (.chunk [98, 98, 10])), .reactor (.go true), .worker 0 true [79, 75]]

/-- **A response that waits with no interest in writing, and an answer behind an error.** -/
theorem protocol_broken :
    (∃ s, run (Connection.step defaultIOConfig) { budget := defaultBudget } lostWakeup = some s ∧
      ¬s.Protocol) ∧
    ∃ s, run (Connection.step { maxQueryLength := 1, maxAccumulatedBytes := 64 })
      { budget := defaultBudget } earlyError = some s ∧ ¬s.Protocol := by
  constructor
  · refine ⟨_, rfl, fun h => ?_⟩
    have harmed := h.writeArmed ⟨rfl, by decide⟩ rfl (by decide)
    cases harmed
  · refine ⟨_, rfl, fun h => ?_⟩
    obtain ⟨answered, errors, _, hlog, hone, _⟩ := h.answers
    have hlog' : [Logged.error Connection.requestTooLarge, Logged.answer [97] [79, 75]] =
      answered.map (fun p => Logged.answer p.1 p.2) ++ errors.map Logged.error := hlog
    cases answered with
    | nil =>
      have hlen := congrArg List.length hlog'
      simp at hlen
      omega
    | cons p answered => cases hlog'

end Nvecd.Server

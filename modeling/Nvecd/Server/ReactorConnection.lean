/-
  File:      Nvecd/Server/ReactorConnection.lean
  Subject:   One reactor connection: the event loop and the drainers on its buffers, flags and
             interests.

  The event loop polls, runs `OnReadable` and `OnWritable` and unregisters; workers run
  `DrainRequests`. A step is what one thread does between two points at which the others can see
  it: a critical section, one access to an atomic, one call of the reactor. What is asked of the
  environment (what `recv`, `send` and `Submit` return, whether the multiplexer takes a change of
  interest, what the processor answers) comes with the step.

  * `ReactorPc`, `WorkerPc` -- where a thread stands;
  * `Connection`, `Connection.step` -- the connection, with what has passed through it;
  * `Connection.Undisturbed` -- the steps at which no decision is out of date;
  * `Connection.Protocol` -- the protocol.
-/
import Nvecd.Server.ReactorMemory
import Nvecd.Server.QueryParser

namespace Nvecd.Server

open Nvecd.Lib Nvecd.Storage

/-! ## 1. Threads -/

/-- The three steps of `CloseAfterFlush`. -/
inductive CloseStage where
  | mark
  | disarm
  | arm
  deriving DecidableEq

/-- Where the event loop stands with the connection. -/
inductive ReactorPc where
  | idle
  /-- `OnReadable`: at the head of its loop, before `SetReadEnabled(false)`, before `DisarmRead`. -/
  | recv (queued : Bool)
  | pause (queued : Bool)
  | disarmRead (queued : Bool)
  /-- `ScheduleDrain`: before the exchange, before `Submit`, before the store of a failure. -/
  | schedule
  | submit
  | unschedule
  /-- An error is to be queued: the server is busy, or else the request is too large. -/
  | error (busy : Bool)
  | errorArm (busy : Bool)
  | close (stage : CloseStage) (keep : Bool)
  /-- The end of `OnReadable`: `HasPendingRequests`, `drain_scheduled_`, `HasPendingOutput`. -/
  | eofRequests
  | eofScheduled
  | eofOutput
  /-- `OnWritable`: in its loop, before `DisarmWrite`, before it returns. -/
  | write
  | disarmWrite
  | closing
  | unregister
  deriving DecidableEq

/-- Where a worker stands in `DrainRequests`. -/
inductive WorkerPc where
  | drain
  | resume (request : Bytes)
  | answer (request : Bytes)
  | arm
  /-- `CloseAfterFlush`, behind it the end of the function, or only its last question. -/
  | close (stage : CloseStage) (last : Bool)
  | eof
  | eofRequests
  | eofOutput
  | unregister
  | done
  deriving DecidableEq

inductive RecvResult where
  | chunk (bytes : Bytes)
  | eof
  | again
  | failed

inductive SendResult where
  | sent (n : Nat)
  | again
  | failed
  /-- Nothing is left to send. -/
  | drained

/-- What the event loop does next, with the answer of the environment. -/
inductive ReactorInput where
  | poll (readable writable hangup : Bool)
  | recv (result : RecvResult)
  | submit (accepted : Bool)
  | send (result : SendResult)
  | go (modified : Bool)

inductive ConnectionAction where
  | reactor (input : ReactorInput)
  | worker (i : Nat) (modified : Bool) (response : Bytes)
  /-- The reaper or `Stop` takes the connection out. -/
  | detach
  /-- Other connections use the budget. -/
  | others (usedBytes : UInt64)

/-! ## 2. The connection -/

/-- A response that was queued. -/
inductive Logged where
  | answer (request response : Bytes)
  | error (text : Bytes)
  deriving DecidableEq

/-- The request that was answered. -/
def Logged.request : Logged → Option Bytes
  | .answer request _ => some request
  | .error _ => none

def Logged.framed : Logged → Bytes
  | .answer _ response => normalizeResponse response
  | .error text => normalizeResponse text

/-- A connection with its threads; the last five fields are what has passed through it: the
    requests framed, those taken, the responses queued, those sent in full, and the request whose
    response was refused. -/
structure Connection where
  read : ReadBuffers := {}
  write : WriteBuffers := {}
  budget : ReactorMemoryBudget
  drainScheduled : Bool := false
  readEof : Bool := false
  closeAfterFlush : Bool := false
  registered : Bool := true
  readable : Bool := true
  writable : Bool := false
  reactor : ReactorPc := .idle
  pendingWrite : Bool := false
  pendingError : Bool := false
  workers : List WorkerPc := []
  framed : List Bytes := []
  processed : List Bytes := []
  log : List Logged := []
  sent : List Bytes := []
  refused : List Bytes := []

namespace Connection

variable (s : Connection)

/-- `SetReadEnabled`, which is `DisarmRead` for `false`. -/
def setReadEnabled (modified enabled : Bool) : Connection :=
  if s.registered ∧ modified then { s with readable := enabled } else s

/-- `ArmWrite`, and `DisarmWrite` for `false`. -/
def setWrite (modified armed : Bool) : Connection :=
  if s.registered ∧ modified then { s with writable := armed } else s

/-- The handler has returned true: the next event of the connection is looked at. -/
def kept : Connection :=
  if s.pendingWrite then { s with reactor := .write, pendingWrite := false }
  else if s.pendingError then { s with reactor := .unregister, pendingError := false }
  else { s with reactor := .idle }

/-- The loop of `OnReadable` is left. -/
def leaveLoop (queued : Bool) : Connection :=
  { s with reactor := if queued then .schedule else .eofRequests }

def requestTooLarge : Bytes := ascii "ERROR Request too large"

def serverBusy : Bytes := ascii "ERROR Server busy"

/-- The critical section of `EnqueueResponse` for an error of the event loop. -/
def enqueueError (busy : Bool) : Connection :=
  let text := if busy then serverBusy else requestTooLarge
  match s.write.enqueue s.budget (normalizeResponse text) with
  | none => { s with reactor := .close .mark (!busy) }
  | some (write, budget) =>
    { s with
      write := write
      budget := budget
      log := s.log ++ [.error text]
      reactor := .errorArm busy }

/-- The steps of the event loop that ask nothing but a change of interest. -/
def goStep (modified : Bool) : Option Connection :=
  match s.reactor with
  | .idle | .submit | .write => none
  | .recv queued => if s.readEof then some (s.leaveLoop queued) else none
  | .pause queued => some ((s.setReadEnabled modified false).leaveLoop queued)
  | .disarmRead queued => some ((s.setReadEnabled modified false).leaveLoop queued)
  | .schedule =>
    if s.drainScheduled then some { s with reactor := .eofRequests }
    else some { s with drainScheduled := true, reactor := .submit }
  | .unschedule => some { s with drainScheduled := false, reactor := .error true }
  | .error busy => some (s.enqueueError busy)
  | .errorArm busy => some { s.setWrite modified true with reactor := .close .mark (!busy) }
  | .close .mark keep => some { s with closeAfterFlush := true, reactor := .close .disarm keep }
  | .close .disarm keep =>
    some { s.setReadEnabled modified false with reactor := .close .arm keep }
  | .close .arm keep =>
    if keep then some (s.setWrite modified true).kept
    else some { s.setWrite modified true with reactor := .unregister }
  | .eofRequests =>
    if s.readEof ∧ s.read.requests = [] then some { s with reactor := .eofScheduled }
    else some s.kept
  | .eofScheduled =>
    if s.drainScheduled then some s.kept else some { s with reactor := .eofOutput }
  | .eofOutput =>
    if s.write.responses = [] then some { s with reactor := .unregister }
    else some { s with reactor := .close .mark true }
  | .disarmWrite => some { s.setWrite modified false with reactor := .closing }
  | .closing =>
    if s.closeAfterFlush then some { s with reactor := .unregister } else some s.kept
  | .unregister =>
    some { s with registered := false, reactor := .idle, pendingWrite := false, pendingError := false }

variable (config : IOConfig)

/-- A chunk: the critical section of `OnReadable`, and what it does behind it. -/
def receive (queued : Bool) (chunk : Bytes) : Connection :=
  let t := s.read.receive config s.budget chunk
  { s with
    read := t.buffers
    budget := t.budget
    framed := s.framed ++ t.buffers.requests.drop s.read.requests.length
    reactor :=
      if t.overflow then .error false
      else if t.pauseRead then .pause (queued || t.queued)
      else .recv (queued || t.queued) }

/-- What `recv` returns. That the loop is left after 64 KiB is not told apart from that nothing
    more is there. -/
def recvStep (result : RecvResult) : Option Connection :=
  match s.reactor with
  | .recv queued =>
    if s.readEof then none
    else
      match result with
      | .chunk bytes =>
        if bytes = [] ∨ kReadChunkBytes < bytes.length then none
        else some (s.receive config queued bytes)
      | .eof => some { s with readEof := true, reactor := .disarmRead queued }
      | .again => some (s.leaveLoop queued)
      | .failed => some { s with reactor := .unregister }
  | _ => none

/-- What `send` returns in the loop of `OnWritable`. -/
def sendStep (result : SendResult) : Option Connection :=
  match s.reactor with
  | .write =>
    match s.write.responses, result with
    | [], .drained => some { s with reactor := .disarmWrite }
    | response :: _, .sent n =>
      if n = 0 ∨ response.length - s.write.responseOffset < n then none
      else
        some { s with
          write := s.write.send n
          budget := s.budget.release n
          sent := if s.write.responseOffset + n = response.length then s.sent ++ [response]
            else s.sent }
    | _ :: _, .again => some s.kept
    | _ :: _, .failed => some { s with reactor := .unregister }
    | _, _ => none
  | _ => none

/-- `Submit`; the worker begins at the head of `DrainRequests`. -/
def submitStep (accepted : Bool) : Option Connection :=
  match s.reactor with
  | .submit =>
    if accepted then some { s with workers := s.workers ++ [.drain], reactor := .eofRequests }
    else some { s with reactor := .unschedule }
  | _ => none

/-- `Poll` tells of nothing that the connection is not armed for, but for errors. -/
def pollStep (readable writable hangup : Bool) : Option Connection :=
  if s.reactor = .idle ∧ s.registered ∧ (readable → s.readable) ∧ (writable → s.writable) then
    let s := { s with pendingWrite := writable, pendingError := hangup && !readable }
    some (if readable then { s with reactor := .recv false } else s.kept)
  else none

def reactorStep : ReactorInput → Option Connection
  | .poll readable writable hangup => s.pollStep readable writable hangup
  | .recv result => s.recvStep config result
  | .submit accepted => s.submitStep accepted
  | .send result => s.sendStep result
  | .go modified => s.goStep modified

/-- What a worker does that stands at a place, and where it stands then. -/
def workerStep (modified : Bool) (response : Bytes) : WorkerPc → Option (Connection × WorkerPc)
  | .drain =>
    match s.read.dequeue with
    | none => some ({ s with drainScheduled := false }, .eof)
    | some (request, read, resumeRead) =>
      some ({ s with
        read := read
        budget := s.budget.release request.length
        processed := s.processed ++ [request] },
        if resumeRead then .resume request else .answer request)
  | .resume request => some (s.setReadEnabled modified true, .answer request)
  | .answer request =>
    match s.write.enqueue s.budget (normalizeResponse response) with
    | none => some ({ s with refused := s.refused ++ [request] }, .close .mark false)
    | some (write, budget) =>
      some ({ s with
        write := write
        budget := budget
        log := s.log ++ [.answer request response] }, .arm)
  | .arm => some (s.setWrite modified true, .drain)
  | .close .mark last => some ({ s with closeAfterFlush := true }, .close .disarm last)
  | .close .disarm last => some (s.setReadEnabled modified false, .close .arm last)
  | .close .arm last => some (s.setWrite modified true, if last then .eofOutput else .eof)
  | .eof => some (s, if s.readEof then .eofRequests else .done)
  | .eofRequests => some (s, if s.read.requests = [] then .close .mark true else .done)
  | .eofOutput => some (s, if s.write.responses = [] then .unregister else .done)
  | .unregister => some ({ s with registered := false }, .done)
  | .done => none

/-- **A step of the connection.** -/
def step (config : IOConfig) (s : Connection) : ConnectionAction → Option Connection
  | .reactor input => s.reactorStep config input
  | .worker i modified response =>
    match s.workers[i]? with
    | none => none
    | some pc =>
      match s.workerStep modified response pc with
      | none => none
      | some (t, pc') => some { t with workers := s.workers.set i pc' }
  | .detach => some { s with registered := false }
  | .others usedBytes => some { s with budget := { s.budget with usedBytes := usedBytes } }

end Connection

/-! ## 3. Where threads are bound to go -/

namespace WorkerPc

/-- In the loop of `DrainRequests`. -/
@[grind] def inLoop : WorkerPc → Bool
  | .drain | .resume _ | .answer _ | .arm => true
  | .close _ _ | .eof | .eofRequests | .eofOutput | .unregister | .done => false

/-- The request that was taken and not answered. -/
@[grind] def hand : WorkerPc → Option Bytes
  | .resume request | .answer request => some request
  | .drain | .arm | .close _ _ | .eof | .eofRequests | .eofOutput | .unregister | .done => none

@[grind] def resumes : WorkerPc → Bool
  | .resume _ => true
  | .drain | .answer _ | .arm | .close _ _ | .eof | .eofRequests | .eofOutput
  | .unregister | .done => false

@[grind] def arms : WorkerPc → Bool
  | .arm | .close _ _ => true
  | .drain | .resume _ | .answer _ | .eof | .eofRequests | .eofOutput | .unregister
  | .done => false

/-- About to close the connection. -/
@[grind] def closes : WorkerPc → Bool
  | .close .mark _ => true
  | .drain | .resume _ | .answer _ | .arm | .close .disarm _ | .close .arm _ | .eof
  | .eofRequests | .eofOutput | .unregister | .done => false

/-- Behind the first step of `CloseAfterFlush`. -/
@[grind] def marked : WorkerPc → Bool
  | .close .disarm _ | .close .arm _ => true
  | .drain | .resume _ | .answer _ | .arm | .close .mark _ | .eof | .eofRequests
  | .eofOutput | .unregister | .done => false

end WorkerPc

namespace ReactorPc

/-- Between the exchange and the end of `ScheduleDrain`. -/
@[grind] def submitting : ReactorPc → Bool
  | .submit | .unschedule => true
  | .idle | .recv _ | .pause _ | .disarmRead _ | .schedule | .error _ | .errorArm _
  | .close _ _ | .eofRequests | .eofScheduled | .eofOutput | .write | .disarmWrite
  | .closing | .unregister => false

/-- About to schedule a drain. -/
@[grind] def schedules : ReactorPc → Bool
  | .recv queued | .pause queued | .disarmRead queued => queued
  | .schedule | .submit => true
  | .idle | .unschedule | .error _ | .errorArm _ | .close _ _ | .eofRequests
  | .eofScheduled | .eofOutput | .write | .disarmWrite | .closing | .unregister => false

@[grind] def arms : ReactorPc → Bool
  | .error _ | .errorArm _ | .close _ _ => true
  | .idle | .recv _ | .pause _ | .disarmRead _ | .schedule | .submit | .unschedule
  | .eofRequests | .eofScheduled | .eofOutput | .write | .disarmWrite | .closing
  | .unregister => false

/-- About to close the connection or to take it out. -/
@[grind] def closes : ReactorPc → Bool
  | .unschedule | .error _ | .errorArm _ | .close .mark _ | .unregister => true
  | .idle | .recv _ | .pause _ | .disarmRead _ | .schedule | .submit | .close .disarm _
  | .close .arm _ | .eofRequests | .eofScheduled | .eofOutput | .write | .disarmWrite
  | .closing => false

@[grind] def marked : ReactorPc → Bool
  | .close .disarm _ | .close .arm _ => true
  | .idle | .recv _ | .pause _ | .disarmRead _ | .schedule | .submit | .unschedule
  | .error _ | .errorArm _ | .close .mark _ | .eofRequests | .eofScheduled | .eofOutput
  | .write | .disarmWrite | .closing | .unregister => false

/-- From here requests may be framed, drains scheduled and errors queued. -/
@[grind] def begins : ReactorPc → Bool
  | .recv _ | .pause _ | .disarmRead _ | .schedule | .submit | .unschedule | .error _ => true
  | .idle | .errorArm _ | .close _ _ | .eofRequests | .eofScheduled | .eofOutput
  | .write | .disarmWrite | .closing | .unregister => false

/-- About to disarm reading for good. -/
@[grind] def stopsReading : ReactorPc → Bool
  | .errorArm _ | .close .mark _ | .close .disarm _ | .unregister => true
  | .idle | .recv _ | .pause _ | .disarmRead _ | .schedule | .submit | .unschedule
  | .error _ | .close .arm _ | .eofRequests | .eofScheduled | .eofOutput | .write
  | .disarmWrite | .closing => false

end ReactorPc

namespace Connection

section Statement

variable (s : Connection)

/-- The connection is closing, or already taken out. -/
@[grind] def Closing : Prop := s.closeAfterFlush = true ∨ s.registered = false

/-- No step is half done: the event loop is elsewhere, and every worker is at the head of its loop
    or at its end. -/
def Quiet : Prop := s.reactor = .idle ∧ ∀ w ∈ s.workers, w = .drain ∨ w = .done

/-- What the event loop has decided is not out of date when it is carried out: reading is still to
    be paused or about to be resumed, no response waits or its worker is about to arm, and an error
    is queued behind all answers. -/
def UpToDate : ReactorPc → Prop
  | .pause _ => s.read.readPaused = true ∨ s.workers.any WorkerPc.resumes = true ∨ s.Closing
  | .disarmWrite => s.write.responses = [] ∨ s.workers.any WorkerPc.arms = true ∨ s.Closing
  | .error _ =>
    s.workers.filterMap WorkerPc.hand = [] ∧
      (s.read.requests = [] ∨ s.workers.countP WorkerPc.inLoop = 0)
  | .idle | .recv _ | .disarmRead _ | .schedule | .submit | .unschedule | .errorArm _ | .close _ _
  | .eofRequests | .eofScheduled | .eofOutput | .write | .closing | .unregister => True

/-- **No decision is out of date**, and the multiplexer takes every change of interest. -/
def Undisturbed : ConnectionAction → Prop
  | .reactor (.go modified) => modified = true ∧ s.UpToDate s.reactor
  | .worker _ modified _ => modified = true
  | .reactor (.poll ..) | .reactor (.recv _) | .reactor (.submit _) | .reactor (.send _)
  | .detach | .others _ => True

instance : Decidable s.Closing := inferInstanceAs (Decidable (_ ∨ _))

instance : DecidablePred s.UpToDate
  | .pause _ => inferInstanceAs (Decidable (_ ∨ _ ∨ _))
  | .disarmWrite => inferInstanceAs (Decidable (_ ∨ _ ∨ _))
  | .error _ => inferInstanceAs (Decidable (_ ∧ _))
  | .idle | .recv _ | .disarmRead _ | .schedule | .submit | .unschedule | .errorArm _ | .close _ _
  | .eofRequests | .eofScheduled | .eofOutput | .write | .closing | .unregister => isTrue trivial

instance : DecidablePred s.Undisturbed
  | .reactor (.go _) => inferInstanceAs (Decidable (_ ∧ _))
  | .worker _ _ _ => inferInstanceAs (Decidable (_ = true))
  | .reactor (.poll ..) | .reactor (.recv _) | .reactor (.submit _) | .reactor (.send _)
  | .detach | .others _ => isTrue trivial

/-- **The protocol of a connection.** -/
structure Protocol : Prop where
  oneDrainer : s.workers.countP WorkerPc.inLoop ≤ 1
  inOrder : s.framed = s.processed ++ s.read.requests
  queued : s.sent ++ s.write.responses = s.log.map Logged.framed
  answers : ∃ (answered : List (Bytes × Bytes)) (errors unanswered : List Bytes),
    s.log = answered.map (fun p => Logged.answer p.1 p.2) ++ errors.map Logged.error ∧
      errors.length ≤ 1 ∧ s.processed = answered.map Prod.fst ++ unanswered ∧
      unanswered.length ≤ 1 ∧ (s.Quiet → unanswered = [] ∨ s.Closing)
  scheduled : s.Quiet → s.read.requests ≠ [] → WorkerPc.drain ∈ s.workers ∨ s.Closing
  writeArmed : s.Quiet → s.registered = true → s.write.responses ≠ [] → s.writable = true
  readArmed : s.Quiet → s.read.requests.length < kPendingFramesLowWatermark →
    s.readEof = false → ¬s.Closing → s.readable = true

end Statement

end Connection

end Nvecd.Server

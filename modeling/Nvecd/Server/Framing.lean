/-
  File:      Nvecd/Server/Framing.lean
  Subject:   Cutting what a client sends into requests: the loop of
             `ReactorConnection::OnReadable` and `ConnectionIOHandler::ProcessBuffer`.

  Both loops look for a CR LF in all that has arrived before they look for an LF. What they
  deliver are the lines of the stream exactly when nothing that is looked at has a line that ends
  with an LF alone before one that ends with CR LF. The reactor also gives a connection up when
  the end of a request is found while `kMaxPendingFrames` requests wait, which depends on the
  chunks as well.

  * `nextFrame`, `frames` -- one request, and all there are, without the limits;
  * `frames_clean`, `frames_mixed` -- when these are lines, and when they are not;
  * `frameLoop`, `receive` -- `OnReadable` on its buffers, with the limits;
  * `sizesFit`, `pendingFit`, `receive_overflow_iff` -- when a chunk is within them;
  * `processBuffer`, `handleConnection` -- the other transport;
  * `requests_are_lines`.
-/
import Nvecd.Lib.Lines
import Nvecd.Lib.Machine
import Nvecd.Storage.WalFormat

namespace Nvecd.Server

open Nvecd.Lib Nvecd.Storage

/-! ## 1. Requests without limits -/

/-- The first request of a buffer with the length of its delimiter, and the rest. -/
def nextFrame (accumulated : Bytes) : Option (Bytes × Nat × Bytes) :=
  match breakCrlf accumulated with
  | some (request, rest) => some (request, 2, rest)
  | none =>
    match breakLf accumulated with
    | some (request, rest) => some (request, 1, rest)
    | none => none

/-- A request ends at the first CR LF, or at the first LF where there is none. -/
theorem nextFrame_cases {accumulated request rest : Bytes} {delimiter : Nat}
    (h : nextFrame accumulated = some (request, delimiter, rest)) :
    (delimiter = 2 ∧ accumulated = request ++ cr :: lf :: rest ∧
      ∀ p q, request ≠ p ++ cr :: lf :: q) ∨
    (delimiter = 1 ∧ accumulated = request ++ lf :: rest ∧ lf ∉ request ∧
      breakCrlf accumulated = none) := by
  unfold nextFrame at h
  split at h
  · rename_i l r hbreak
    obtain ⟨rfl, rfl, rfl⟩ : l = request ∧ 2 = delimiter ∧ r = rest := by simpa using h
    exact .inl ⟨rfl, breakCrlf_some hbreak, fun p q => no_crlf_of_breakCrlf hbreak⟩
  · rename_i hnone
    split at h
    · rename_i l r hbreak
      obtain ⟨rfl, rfl, rfl⟩ : l = request ∧ 1 = delimiter ∧ r = rest := by simpa using h
      obtain ⟨hs, hno⟩ := breakLf_some hbreak
      exact .inr ⟨rfl, hs, hno, hnone⟩
    · cases h

theorem nextFrame_none {accumulated : Bytes} (h : nextFrame accumulated = none) :
    lf ∉ accumulated := by
  unfold nextFrame at h
  split at h
  · cases h
  · split at h
    · cases h
    · rename_i hlf
      exact breakLf_none hlf

/-- The bytes of a buffer are those of its first request, the delimiter and the rest. -/
theorem length_nextFrame {accumulated request rest : Bytes} {delimiter : Nat}
    (h : nextFrame accumulated = some (request, delimiter, rest)) :
    accumulated.length = request.length + delimiter + rest.length ∧ 0 < delimiter := by
  rcases nextFrame_cases h with ⟨rfl, rfl, _⟩ | ⟨rfl, rfl, _⟩
  · simp only [List.length_append, List.length_cons]
    omega
  · simp only [List.length_append, List.length_cons]
    omega

/-- All requests of a buffer, the empty ones dropped, and what is left. -/
def frames : Nat → Bytes → List Bytes × Bytes
  | 0, accumulated => ([], accumulated)
  | turns + 1, accumulated =>
    match nextFrame accumulated with
    | none => ([], accumulated)
    | some (request, _, rest) =>
      let (requests, left) := frames turns rest
      (if request = [] then requests else request :: requests, left)

section Frames

variable {accumulated : Bytes} {turns : Nat}

/-- A buffer whose lines have one kind of end: the first request is the first line, and the rest
    is such a buffer. -/
theorem nextFrame_clean {request rest : Bytes} {delimiter : Nat}
    (h : nextFrame accumulated = some (request, delimiter, rest))
    (hclean : mixed lf accumulated = false) :
    textLines accumulated =
        (if request = [] then textLines rest else request :: textLines rest) ∧
      lastLine [] accumulated = lastLine [] rest ∧ mixed lf rest = false := by
  rw [Bool.eq_false_iff] at hclean
  rcases nextFrame_cases h with ⟨_, rfl, hfirst⟩ | ⟨_, rfl, hno, hnone⟩
  · have hno : lf ∉ request := fun hin => hclean (mixed_of_lf_before lf_ne_cr hin hfirst)
    have hsplit : request ++ cr :: lf :: rest = (request ++ [cr]) ++ lf :: rest := by simp
    refine ⟨textLines_crlf hno rest, ?_, ?_⟩
    · rw [hsplit, lastLine_line]
    · rw [Bool.eq_false_iff]
      intro hrest
      rw [hsplit] at hclean
      exact hclean (mixed_of_rest hrest)
  · refine ⟨textLines_lf hno ?_ rest, lastLine_line request rest, ?_⟩
    · -- with a CR before it the LF would have been found as a CR LF
      intro hlast
      obtain ⟨l, rfl⟩ := List.getLast?_eq_some_iff.mp hlast
      have hsome : (breakCrlf (l ++ [cr] ++ lf :: rest)).isSome = true :=
        breakCrlf_isSome_iff.2 ⟨l, rest, by simp⟩
      rw [hnone] at hsome
      cases hsome
    · rw [Bool.eq_false_iff]
      exact fun hrest => hclean (mixed_of_rest hrest)

/-- **Lines with one kind of end** are the requests. -/
theorem frames_clean (hturns : accumulated.length < turns) (h : mixed lf accumulated = false) :
    frames turns accumulated = (textLines accumulated, lastLine [] accumulated) := by
  induction turns generalizing accumulated with
  | zero => omega
  | succ turns ih =>
    unfold frames
    cases hframe : nextFrame accumulated with
    | none =>
      have hnone := nextFrame_none hframe
      rw [textLines_of_no_lf hnone, lastLine_of_no_lf hnone]
      rfl
    | some p =>
      obtain ⟨request, delimiter, rest⟩ := p
      have hlen := length_nextFrame hframe
      obtain ⟨hlines, hlast, hclean⟩ := nextFrame_clean hframe h
      simp only [ih (by omega) hclean]
      rw [hlines, hlast]

/-- **Both kinds of end in one buffer**, the LF first: a request has an LF. -/
theorem frames_mixed (hturns : accumulated.length < turns) (h : mixed lf accumulated = true) :
    ∃ request ∈ (frames turns accumulated).1, lf ∈ request := by
  induction turns generalizing accumulated with
  | zero => omega
  | succ turns ih =>
    unfold frames
    cases hframe : nextFrame accumulated with
    | none =>
      obtain ⟨p, q, r, rfl, _⟩ := mixed_iff.1 h
      exact absurd (by simp) (nextFrame_none hframe)
    | some p =>
      obtain ⟨request, delimiter, rest⟩ := p
      have hlen := length_nextFrame hframe
      rcases nextFrame_cases hframe with ⟨_, rfl, _⟩ | ⟨_, _, _, hnone⟩
      · by_cases hin : lf ∈ request
        · refine ⟨request, ?_, hin⟩
          simp only [if_neg (List.ne_nil_of_mem hin)]
          exact List.mem_cons_self
        · obtain ⟨r, hr, hlf⟩ := ih (by omega) (mixed_rest hin h)
          refine ⟨r, ?_, hlf⟩
          simp only
          split
          · exact hr
          · exact List.mem_cons_of_mem request hr
      · have hsome := breakCrlf_of_mixed h
        rw [hnone] at hsome
        cases hsome

/-- More turns than bytes are turns enough. -/
theorem frames_enough {turns' : Nat} (hturns : accumulated.length < turns)
    (hturns' : accumulated.length < turns') : frames turns accumulated = frames turns' accumulated := by
  induction turns generalizing accumulated turns' with
  | zero => omega
  | succ turns ih =>
    obtain ⟨turns', rfl⟩ : ∃ n, turns' = n + 1 := ⟨turns' - 1, by omega⟩
    unfold frames
    cases hframe : nextFrame accumulated with
    | none => rfl
    | some p =>
      obtain ⟨request, delimiter, rest⟩ := p
      have hlen := length_nextFrame hframe
      simp only [ih (show rest.length < turns by omega) (show rest.length < turns' by omega)]

/-- The requests of chunks that arrive one after the other, and what the last leaves. -/
def feed : Bytes → List Bytes → List Bytes × Bytes
  | rest, [] => ([], rest)
  | rest, chunk :: chunks =>
    let (requests, left) := frames ((rest ++ chunk).length + 1) (rest ++ chunk)
    let (more, last) := feed left chunks
    (requests ++ more, last)

/-- Nothing that is looked at at once, an unfinished line with the chunk that arrives behind it,
    has an LF that is no CR LF before a CR LF. -/
def uniform : Bytes → List Bytes → Bool
  | _, [] => true
  | rest, chunk :: chunks =>
    !mixed lf (rest ++ chunk) && uniform (lastLine [] (rest ++ chunk)) chunks

/-- **When the requests are the lines of the stream.** -/
theorem feed_lines_iff {rest : Bytes} (hrest : lf ∉ rest) (chunks : List Bytes) :
    (feed rest chunks).1 = textLines (rest ++ chunks.flatten) ↔ uniform rest chunks = true := by
  induction chunks generalizing rest with
  | nil =>
    rw [List.flatten_nil, List.append_nil, textLines_of_no_lf hrest]
    exact ⟨fun _ => rfl, fun _ => rfl⟩
  | cons chunk chunks ih =>
    rw [List.flatten_cons, ← List.append_assoc]
    unfold feed uniform
    cases hmixed : mixed lf (rest ++ chunk) with
    | true =>
      -- a request with an LF is no line, whatever comes behind it
      obtain ⟨request, hin, hlf⟩ := frames_mixed (Nat.lt_succ_self _) hmixed
      refine iff_of_false (fun heq => ?_) Bool.false_ne_true
      have hline : request ∈ textLines (rest ++ chunk ++ chunks.flatten) := by
        rw [← heq]
        exact List.mem_append_left _ hin
      exact no_lf_of_mem_textLines hline hlf
    | false =>
      simp only [frames_clean (Nat.lt_succ_self _) hmixed]
      rw [textLines_append (rest ++ chunk), List.append_cancel_left_eq,
        ih (no_lf_lastLine List.not_mem_nil _)]
      rfl

end Frames

/-! ## 2. The buffers of a reactor connection -/

/-- The limits of `IOConfig`. -/
structure IOConfig where
  maxQueryLength : Nat
  maxAccumulatedBytes : Nat

/-- `ReactorMemoryBudget`, whose counter is a `size_t`. -/
structure ReactorMemoryBudget where
  limitBytes : UInt64
  usedBytes : UInt64 := 0
  deriving DecidableEq

namespace ReactorMemoryBudget

/-- `TryAcquire`. -/
def tryAcquire (m : ReactorMemoryBudget) (bytes : Nat) : Option ReactorMemoryBudget :=
  if bytes ≤ (m.limitBytes - m.usedBytes).toNat then
    some { m with usedBytes := m.usedBytes + .ofNat bytes }
  else none

/-- `Release`. -/
def release (m : ReactorMemoryBudget) (bytes : Nat) : ReactorMemoryBudget :=
  { m with usedBytes := m.usedBytes - .ofNat bytes }

end ReactorMemoryBudget

def kMaxPendingFrames : Nat := 1024

def kPendingFramesHighWatermark : Nat := 768

def kPendingFramesLowWatermark : Nat := 512

/-- What `read_mutex_` guards. -/
structure ReadBuffers where
  accumulated : Bytes := []
  requests : List Bytes := []
  requestBytes : Nat := 0
  readPaused : Bool := false
  deriving DecidableEq

/-- What a turn of `OnReadable` knows of the chunk it has received. -/
structure ReadTurn where
  buffers : ReadBuffers
  budget : ReactorMemoryBudget
  queued : Bool := false
  pauseRead : Bool := false
  overflow : Bool := false
  deriving DecidableEq

variable (config : IOConfig)

/-- One turn of the loop that frames; `none` where it is left. -/
def frameStep (t : ReadTurn) : Option ReadTurn :=
  if t.overflow then none
  else
    match nextFrame t.buffers.accumulated with
    | none => none
    | some (request, delimiter, rest) =>
      if request.length > config.maxQueryLength ∨
          t.buffers.requests.length ≥ kMaxPendingFrames ∨
          t.buffers.requestBytes + request.length > config.maxAccumulatedBytes then
        some { t with overflow := true }
      else
        let budget := t.budget.release delimiter
        -- an empty request is dropped, its delimiter with it
        if request = [] then
          some { t with buffers := { t.buffers with accumulated := rest }, budget := budget }
        else
          some { t with
            buffers := { t.buffers with
              accumulated := rest
              requests := t.buffers.requests ++ [request]
              requestBytes := t.buffers.requestBytes + request.length }
            budget := budget
            queued := true }

def frameLoop : Nat → ReadTurn → ReadTurn
  | 0, t => t
  | turns + 1, t =>
    match frameStep config t with
    | none => t
    | some t' => frameLoop turns t'

/-- Whether the reader is to pause: what `OnReadable` decides behind the loop. -/
def ReadTurn.pause (t : ReadTurn) : ReadTurn :=
  if t.buffers.requests.length ≥ kPendingFramesHighWatermark then
    { t with buffers := { t.buffers with readPaused := true }, pauseRead := true }
  else t

/-- The first part of the critical section of `OnReadable`: the chunk is charged and appended. -/
def ReadBuffers.accept (b : ReadBuffers) (budget : ReactorMemoryBudget) (chunk : Bytes) :
    ReadTurn :=
  if b.accumulated.length + chunk.length > config.maxAccumulatedBytes then
    { buffers := b, budget := budget, overflow := true }
  else
    match budget.tryAcquire chunk.length with
    | none => { buffers := b, budget := budget, overflow := true }
    | some budget =>
      { buffers := { b with accumulated := b.accumulated ++ chunk }, budget := budget }

/-- **The critical section of `OnReadable`**, on a chunk that was received. -/
def ReadBuffers.receive (b : ReadBuffers) (budget : ReactorMemoryBudget) (chunk : Bytes) :
    ReadTurn :=
  let t := b.accept config budget chunk
  if t.overflow then t
  else (frameLoop config (t.buffers.accumulated.length + 1) t).pause

/-- **The critical section of `DrainRequests`**: the next request, with whether to read again. -/
def ReadBuffers.dequeue (b : ReadBuffers) : Option (Bytes × ReadBuffers × Bool) :=
  match b.requests with
  | [] => none
  | request :: requests =>
    let resumeRead := b.readPaused && decide (requests.length ≤ kPendingFramesLowWatermark)
    some (request,
      { b with
        requests := requests
        requestBytes := b.requestBytes - request.length
        readPaused := b.readPaused && !resumeRead },
      resumeRead)

section Loop

variable {config} {t t' : ReadTurn} {turns : Nat}

/-- **One turn**: the loop overflows, or the next request goes from the bytes to the queue. -/
theorem frameStep_cases (h : frameStep config t = some t') :
    t.overflow = false ∧
    (t' = { t with overflow := true } ∨
      ∃ request delimiter rest,
        nextFrame t.buffers.accumulated = some (request, delimiter, rest) ∧
        t'.overflow = false ∧ t'.pauseRead = t.pauseRead ∧
        t'.queued = (t.queued || !decide (request = [])) ∧
        t'.budget = t.budget.release delimiter ∧
        t'.buffers = { t.buffers with
          accumulated := rest
          requests := t.buffers.requests ++ if request = [] then [] else [request]
          requestBytes := t.buffers.requestBytes + request.length } ∧
        t.buffers.requests.length < kMaxPendingFrames) := by
  unfold frameStep at h
  split at h
  · cases h
  · rename_i hover
    rw [Bool.not_eq_true] at hover
    refine ⟨hover, ?_⟩
    split at h
    · cases h
    · rename_i request delimiter rest hframe
      split at h
      · exact .inl (Option.some.inj h).symm
      · rename_i hlimits
        refine .inr ⟨request, delimiter, rest, hframe, ?_⟩
        have hfew : t.buffers.requests.length < kMaxPendingFrames := by
          rw [not_or, not_or] at hlimits
          exact Nat.lt_of_not_le hlimits.2.1
        dsimp only at h
        split at h
        · rename_i hnil
          obtain rfl := Option.some.inj h
          refine ⟨hover, rfl, by simp [hnil], rfl, ?_, hfew⟩
          simp [hnil]
        · rename_i hne
          obtain rfl := Option.some.inj h
          refine ⟨hover, rfl, by simp [hne], rfl, ?_, hfew⟩
          simp [hne]

theorem frameStep_none (h : frameStep config t = none) (hover : t.overflow = false) :
    nextFrame t.buffers.accumulated = none := by
  unfold frameStep at h
  rw [if_neg (by rw [hover]; exact Bool.false_ne_true)] at h
  split at h
  · assumption
  · dsimp only at h
    split at h
    · cases h
    · split at h
      · cases h
      · cases h

theorem frameLoop_overflow (hover : t.overflow = true) : frameLoop config turns t = t := by
  cases turns with
  | zero => rfl
  | succ turns =>
    have hnone : frameStep config t = none := by
      unfold frameStep
      rw [if_pos hover]
    rw [frameLoop, hnone]

/-- **Within the limits** the loop does what `frames` does. -/
theorem frameLoop_frames (hover : (frameLoop config turns t).overflow = false) :
    (frameLoop config turns t).buffers.requests =
        t.buffers.requests ++ (frames turns t.buffers.accumulated).1 ∧
      (frameLoop config turns t).buffers.accumulated =
        (frames turns t.buffers.accumulated).2 := by
  induction turns generalizing t with
  | zero => exact ⟨(List.append_nil _).symm, rfl⟩
  | succ turns ih =>
    have hnow : t.overflow = false := by
      by_contra hne
      rw [Bool.not_eq_false] at hne
      rw [frameLoop_overflow hne, hne] at hover
      cases hover
    rw [frameLoop] at hover ⊢
    cases hstep : frameStep config t with
    | none =>
      simp only [frames, frameStep_none hstep hnow, List.append_nil, and_self]
    | some t' =>
      simp only [hstep] at hover ⊢
      obtain ⟨_, rfl | ⟨request, delimiter, rest, hframe, _, _, _, _, hbuffers, _⟩⟩ :=
        frameStep_cases hstep
      · rw [frameLoop_overflow rfl] at hover
        cases hover
      · obtain ⟨hrequests, haccumulated⟩ := ih hover
        rw [hrequests, haccumulated, hbuffers]
        refine ⟨?_, by simp only [frames, hframe]⟩
        simp only [frames, hframe]
        by_cases hnil : request = []
        · simp [hnil]
        · simp [hnil]

theorem pause_frame (t : ReadTurn) : t.pause.overflow = t.overflow ∧
    t.pause.buffers.requests = t.buffers.requests ∧
    t.pause.buffers.accumulated = t.buffers.accumulated := by
  unfold ReadTurn.pause
  split
  · exact ⟨rfl, rfl, rfl⟩
  · exact ⟨rfl, rfl, rfl⟩

theorem accept_buffers {b : ReadBuffers} {budget : ReactorMemoryBudget} {chunk : Bytes}
    (h : (b.accept config budget chunk).overflow = false) :
    (b.accept config budget chunk).buffers =
      { b with accumulated := b.accumulated ++ chunk } := by
  unfold ReadBuffers.accept at h ⊢
  split
  · rename_i hlarge
    rw [if_pos hlarge] at h
    cases h
  · rename_i hlarge
    rw [if_neg hlarge] at h
    split
    · rename_i hnone
      rw [hnone] at h
      cases h
    · rfl

/-- **A chunk that is taken**: its requests are queued, and what is left waits. -/
theorem receive_frames {b : ReadBuffers} {budget : ReactorMemoryBudget} {chunk : Bytes}
    (h : (b.receive config budget chunk).overflow = false) :
    ∃ turns, (b.accumulated ++ chunk).length < turns ∧
      (b.receive config budget chunk).buffers.requests =
        b.requests ++ (frames turns (b.accumulated ++ chunk)).1 ∧
      (b.receive config budget chunk).buffers.accumulated =
        (frames turns (b.accumulated ++ chunk)).2 := by
  unfold ReadBuffers.receive at h ⊢
  dsimp only at h ⊢
  split at h
  · rename_i hover
    rw [hover] at h
    cases h
  · rename_i hover
    rw [if_neg hover]
    rw [Bool.not_eq_true] at hover
    rw [(pause_frame _).1] at h
    obtain ⟨hrequests, haccumulated⟩ := frameLoop_frames h
    rw [(pause_frame _).2.1, (pause_frame _).2.2, hrequests, haccumulated, accept_buffers hover]
    exact ⟨_, Nat.lt_succ_self _, rfl, rfl⟩

/-- The limits on sizes, for every request that is found: its own, and that of all that wait. -/
def sizesFit (config : IOConfig) : Nat → Nat → Bytes → Bool
  | 0, _, _ => true
  | turns + 1, requestBytes, accumulated =>
    match nextFrame accumulated with
    | none => true
    | some (request, _, rest) =>
      decide (request.length ≤ config.maxQueryLength) &&
        decide (requestBytes + request.length ≤ config.maxAccumulatedBytes) &&
        sizesFit config turns (requestBytes + request.length) rest

/-- Whenever the end of a request is found, fewer than `kMaxPendingFrames` requests wait. -/
def pendingFit : Nat → Nat → Bytes → Bool
  | 0, _, _ => true
  | turns + 1, waiting, accumulated =>
    match nextFrame accumulated with
    | none => true
    | some (request, _, rest) =>
      decide (waiting < kMaxPendingFrames) &&
        pendingFit turns (if request = [] then waiting else waiting + 1) rest

/-- **The loop overflows** where a limit on sizes is broken or too many requests wait. -/
theorem frameLoop_overflow_iff (hover : t.overflow = false) :
    (frameLoop config turns t).overflow = false ↔
      sizesFit config turns t.buffers.requestBytes t.buffers.accumulated = true ∧
        pendingFit turns t.buffers.requests.length t.buffers.accumulated = true := by
  induction turns generalizing t with
  | zero => exact iff_of_true hover ⟨rfl, rfl⟩
  | succ turns ih =>
    rw [frameLoop, frameStep, if_neg (by rw [hover]; exact Bool.false_ne_true)]
    cases hframe : nextFrame t.buffers.accumulated with
    | none => simp only [sizesFit, pendingFit, hframe, hover, and_self]
    | some p =>
      obtain ⟨request, delimiter, rest⟩ := p
      simp only [sizesFit, pendingFit, hframe, Bool.and_eq_true, decide_eq_true_eq]
      by_cases hlimits : request.length > config.maxQueryLength ∨
          t.buffers.requests.length ≥ kMaxPendingFrames ∨
          t.buffers.requestBytes + request.length > config.maxAccumulatedBytes
      · rw [if_pos hlimits]
        have hover' : (frameLoop config turns { t with overflow := true }).overflow = true := by
          rw [frameLoop_overflow rfl]
        refine iff_of_false (fun hnot => Bool.noConfusion (hover'.symm.trans hnot)) ?_
        intro hfits
        obtain ⟨⟨⟨hquery, hbytes⟩, -⟩, hfew, -⟩ := hfits
        omega
      · rw [if_neg hlimits]
        have hquery : request.length ≤ config.maxQueryLength := by omega
        have hbytes : t.buffers.requestBytes + request.length ≤ config.maxAccumulatedBytes := by
          omega
        have hfew : t.buffers.requests.length < kMaxPendingFrames := by omega
        by_cases hnil : request = []
        · simp only [if_pos hnil, hquery, hbytes, hfew, true_and]
          refine (ih ?_).trans ?_
          · exact hover
          · rw [hnil]
            rfl
        · simp only [if_neg hnil, hquery, hbytes, hfew, true_and]
          refine (ih ?_).trans ?_
          · exact hover
          · rw [List.length_append]
            rfl

/-- The limits on sizes, for a chunk that arrives. -/
def ReadBuffers.sizesFit (config : IOConfig) (b : ReadBuffers) (budget : ReactorMemoryBudget)
    (chunk : Bytes) : Bool :=
  decide (b.accumulated.length + chunk.length ≤ config.maxAccumulatedBytes) &&
    (budget.tryAcquire chunk.length).isSome &&
    Server.sizesFit config ((b.accumulated ++ chunk).length + 1) b.requestBytes
      (b.accumulated ++ chunk)

def ReadBuffers.pendingFit (b : ReadBuffers) (chunk : Bytes) : Bool :=
  Server.pendingFit ((b.accumulated ++ chunk).length + 1) b.requests.length
    (b.accumulated ++ chunk)

/-- **A chunk is taken** if it is within the limits on sizes and not too many requests wait. -/
theorem receive_overflow_iff {b : ReadBuffers} {budget : ReactorMemoryBudget} {chunk : Bytes} :
    (b.receive config budget chunk).overflow = false ↔
      b.sizesFit config budget chunk = true ∧ b.pendingFit chunk = true := by
  unfold ReadBuffers.receive ReadBuffers.accept ReadBuffers.sizesFit ReadBuffers.pendingFit
  by_cases hlarge : b.accumulated.length + chunk.length > config.maxAccumulatedBytes
  · rw [if_pos hlarge, decide_eq_false (by omega)]
    simp
  · rw [if_neg hlarge, decide_eq_true (by omega)]
    cases hacquire : budget.tryAcquire chunk.length with
    | none => simp
    | some budget' =>
      simp only [Bool.false_eq_true, if_false, (pause_frame _).1, Option.isSome_some, Bool.and_self,
        Bool.true_and]
      exact frameLoop_overflow_iff rfl

end Loop

/-! ## 3. The transports -/

/-- A reactor connection that reads, with the requests its processor has been given. -/
structure ReactorReads where
  buffers : ReadBuffers := {}
  budget : ReactorMemoryBudget
  delivered : List Bytes := []
  /-- `OnReadable` has overflowed: the connection answers with an error and reads no more. -/
  closing : Bool := false

/-- A chunk arrives, a worker takes a request, or another connection uses the budget. -/
inductive ReactorRead where
  | chunk (bytes : Bytes)
  | drain
  | others (usedBytes : UInt64)

def ReactorReads.step (s : ReactorReads) : ReactorRead → Option ReactorReads
  | .chunk bytes =>
    if s.closing then none
    else
      let t := s.buffers.receive config s.budget bytes
      some { s with buffers := t.buffers, budget := t.budget, closing := t.overflow }
  | .drain =>
    match s.buffers.dequeue with
    | none => none
    | some (request, buffers, _) =>
      some { s with
        buffers := buffers
        budget := s.budget.release request.length
        delivered := s.delivered ++ [request] }
  | .others usedBytes => some { s with budget := { s.budget with usedBytes := usedBytes } }

/-- What the connection makes of its stream: the requests that are delivered, behind them those
    that wait for a worker, or an error that ends it. -/
def ReactorReads.outcome (s : ReactorReads) : Option (List Bytes) :=
  if s.closing then none else some (s.delivered ++ s.buffers.requests)

/-- The stream is within the limits on sizes, as far as this step goes. -/
def ReactorReads.sizesFit (s : ReactorReads) : ReactorRead → Bool
  | .chunk bytes => s.buffers.sizesFit config s.budget bytes
  | _ => true

/-- Whenever the end of a request is found, fewer than `kMaxPendingFrames` requests wait. -/
def ReactorReads.pendingFit (s : ReactorReads) : ReactorRead → Bool
  | .chunk bytes => s.buffers.pendingFit bytes
  | _ => true

/-- The chunks that arrive in a run. -/
def chunksOf : List ReactorRead → List Bytes
  | [] => []
  | .chunk bytes :: actions => bytes :: chunksOf actions
  | .drain :: actions => chunksOf actions
  | .others _ :: actions => chunksOf actions

/-- `ProcessBuffer` after the requests `delivered`; `none` where the connection is given up. That
    the answer to the n-th request can be sent is `sends n`. -/
def processBuffer (sends : Nat → Bool) : Nat → List Bytes → Bytes → Option (List Bytes × Bytes)
  | 0, delivered, accumulated => some (delivered, accumulated)
  | turns + 1, delivered, accumulated =>
    match nextFrame accumulated with
    | none => some (delivered, accumulated)
    | some (request, _, rest) =>
      if request.length > config.maxQueryLength then none
      else if request = [] then processBuffer sends turns delivered rest
      else if sends delivered.length then
        processBuffer sends turns (delivered ++ [request]) rest
      else none

/-- The loop of `HandleConnection` over the chunks it receives. -/
def handleConnection (sends : Nat → Bool) :
    List Bytes → List Bytes → Bytes → Option (List Bytes × Bytes)
  | [], delivered, accumulated => some (delivered, accumulated)
  | chunk :: chunks, delivered, accumulated =>
    if accumulated.length + chunk.length > config.maxAccumulatedBytes then none
    else
      match processBuffer config sends ((accumulated ++ chunk).length + 1) delivered
          (accumulated ++ chunk) with
      | none => none
      | some (delivered, accumulated) => handleConnection sends chunks delivered accumulated

section Transports

variable {config} {sends : Nat → Bool} {delivered chunks : List Bytes} {accumulated left : Bytes}

theorem processBuffer_frames {turns : Nat} {requests : List Bytes}
    (h : processBuffer config sends turns delivered accumulated = some (requests, left)) :
    requests = delivered ++ (frames turns accumulated).1 ∧ left = (frames turns accumulated).2 := by
  induction turns generalizing delivered accumulated with
  | zero =>
    obtain ⟨rfl, rfl⟩ := Prod.mk.inj (Option.some.inj h)
    exact ⟨(List.append_nil _).symm, rfl⟩
  | succ turns ih =>
    rw [processBuffer] at h
    cases hframe : nextFrame accumulated with
    | none =>
      rw [hframe] at h
      obtain ⟨rfl, rfl⟩ := Prod.mk.inj (Option.some.inj h)
      simp only [frames, hframe, List.append_nil, and_self]
    | some p =>
      obtain ⟨request, delimiter, rest⟩ := p
      simp only [hframe] at h
      split at h
      · cases h
      · split at h
        · rename_i hnil
          simpa [frames, hframe, hnil] using ih h
        · rename_i hne
          split at h
          · simpa [frames, hframe, hne] using ih h
          · cases h

theorem handleConnection_feed {requests : List Bytes}
    (h : handleConnection config sends chunks delivered accumulated = some (requests, left)) :
    requests = delivered ++ (feed accumulated chunks).1 ∧ left = (feed accumulated chunks).2 := by
  induction chunks generalizing delivered accumulated with
  | nil =>
    obtain ⟨rfl, rfl⟩ := Prod.mk.inj (Option.some.inj h)
    exact ⟨(List.append_nil _).symm, rfl⟩
  | cons chunk chunks ih =>
    rw [handleConnection] at h
    split at h
    · cases h
    · split at h
      · cases h
      · rename_i delivered' accumulated' hprocess
        obtain ⟨rfl, rfl⟩ := processBuffer_frames hprocess
        obtain ⟨hrequests, hleft⟩ := ih h
        exact ⟨by rw [hrequests, List.append_assoc]; rfl, hleft⟩

/-- A connection that is given up stays so. -/
theorem ReactorReads.closing_run {actions : List ReactorRead} {s s' : ReactorReads}
    (h : run (ReactorReads.step config) s actions = some s') (hclosing : s.closing = true) :
    s'.closing = true := by
  have hkeeps : ∀ s a t, ReactorReads.closing s = true → ReactorReads.step config s a = some t →
      ReactorReads.closing t = true := by
    intro s a t hc hstep
    cases a with
    | chunk bytes =>
      rw [ReactorReads.step, if_pos hc] at hstep
      cases hstep
    | drain =>
      simp only [ReactorReads.step] at hstep
      split at hstep
      · cases hstep
      · obtain rfl := Option.some.inj hstep
        exact hc
    | others usedBytes =>
      obtain rfl := Option.some.inj hstep
      exact hc
  exact run_inv hkeeps hclosing h

/-- **What a run delivers** if the connection is not given up, and when that is so. -/
theorem ReactorReads.run_feed {actions : List ReactorRead} {s s' : ReactorReads}
    (h : run (ReactorReads.step config) s actions = some s') (hopen : s.closing = false)
    (hsizes : Meets (ReactorReads.step config) (fun s a => s.sizesFit config a = true) s actions) :
    (s'.closing = false ↔
        Meets (ReactorReads.step config) (fun s a => s.pendingFit a = true) s actions) ∧
      (s'.closing = false →
        s'.delivered ++ s'.buffers.requests =
          s.delivered ++ s.buffers.requests ++
            (feed s.buffers.accumulated (chunksOf actions)).1) := by
  induction actions generalizing s with
  | nil =>
    obtain rfl := Option.some.inj h
    exact ⟨iff_of_true hopen trivial, fun _ => (List.append_nil _).symm⟩
  | cons action actions ih =>
    obtain ⟨t, hstep, hrun⟩ := run_cons_eq_some.1 h
    simp only [Meets, hstep] at hsizes ⊢
    obtain ⟨hsize, hsizes⟩ := hsizes
    cases action with
    | chunk bytes =>
      rw [ReactorReads.step, if_neg (by rw [hopen]; exact Bool.false_ne_true)] at hstep
      obtain rfl := Option.some.inj hstep
      have hiff : (s.buffers.receive config s.budget bytes).overflow = false ↔ _ :=
        receive_overflow_iff
      rw [show s.buffers.sizesFit config s.budget bytes = true from hsize] at hiff
      simp only [true_and] at hiff
      cases hover : (s.buffers.receive config s.budget bytes).overflow with
      | true =>
        have hclosing : s'.closing = true := ReactorReads.closing_run hrun hover
        rw [hover] at hiff
        refine ⟨iff_of_false (by rw [hclosing]; exact Bool.noConfusion) fun hpending => ?_,
          fun hopen' => ?_⟩
        · exact Bool.noConfusion (hiff.2 hpending.1)
        · rw [hclosing] at hopen'
          cases hopen'
      | false =>
        obtain ⟨hends, hfeeds⟩ := ih hrun hover hsizes
        rw [hover] at hends
        refine ⟨hends.trans (and_iff_right (hiff.1 hover)).symm, fun hopen' => ?_⟩
        obtain ⟨turns, hturns, hqueue, haccumulated⟩ := receive_frames hover
        rw [frames_enough hturns (Nat.lt_succ_self _)] at hqueue haccumulated
        rw [hfeeds hopen']
        simp only [hqueue, haccumulated, chunksOf, feed, List.append_assoc]
    | drain =>
      simp only [ReactorReads.step, ReadBuffers.dequeue] at hstep
      cases hqueue : s.buffers.requests with
      | nil =>
        rw [hqueue] at hstep
        cases hstep
      | cons request requests =>
        rw [hqueue] at hstep
        obtain rfl := Option.some.inj hstep
        obtain ⟨hends, hfeeds⟩ := ih hrun hopen hsizes
        refine ⟨hends.trans (and_iff_right rfl).symm, fun hopen' => ?_⟩
        rw [hfeeds hopen']
        simp [chunksOf]
    | others usedBytes =>
      obtain rfl := Option.some.inj hstep
      obtain ⟨hends, hfeeds⟩ := ih hrun hopen hsizes
      exact ⟨hends.trans (and_iff_right rfl).symm, hfeeds⟩

end Transports

/-- **The requests are the lines of the stream** on both transports, for a stream within the
    limits on sizes, exactly when the chunks are cut so that no LF alone is looked at before a
    CR LF and, on a reactor connection, no end of a request is found while `kMaxPendingFrames`
    requests wait. -/
theorem requests_are_lines (config : IOConfig) :
    (∀ (budget : ReactorMemoryBudget) (actions : List ReactorRead) (s : ReactorReads),
      run (ReactorReads.step config) { budget := budget } actions = some s →
      Meets (ReactorReads.step config) (fun s a => s.sizesFit config a = true)
          { budget := budget } actions →
        (s.outcome = some (textLines (chunksOf actions).flatten) ↔
          uniform [] (chunksOf actions) = true ∧
            Meets (ReactorReads.step config) (fun s a => s.pendingFit a = true)
              { budget := budget } actions)) ∧
    (∀ (sends : Nat → Bool) (chunks requests : List Bytes) (left : Bytes),
      handleConnection config sends chunks [] [] = some (requests, left) →
        (requests = textLines chunks.flatten ↔ uniform [] chunks = true)) := by
  constructor
  · intro budget actions s hrun hsizes
    obtain ⟨hends, hfeeds⟩ := ReactorReads.run_feed hrun rfl hsizes
    have hlines := feed_lines_iff List.not_mem_nil (chunksOf actions)
    rw [← hends, ReactorReads.outcome]
    cases hclosing : s.closing with
    | true => simp
    | false =>
      rw [if_neg Bool.false_ne_true, Option.some.injEq, hfeeds hclosing]
      exact hlines.trans (and_iff_left rfl).symm
  · intro sends chunks requests left hhandle
    obtain ⟨hrequests, _⟩ := handleConnection_feed hhandle
    rw [hrequests]
    exact feed_lines_iff List.not_mem_nil chunks

/-- The defaults of `IOConfig`. -/
def defaultIOConfig : IOConfig := { maxQueryLength := 1048576, maxAccumulatedBytes := 2097152 }

/-- The default of `max_total_buffered_bytes`. -/
def defaultBudget : ReactorMemoryBudget := { limitBytes := 268435456 }

/-- A stream whose first line ends with LF and whose second ends with CR LF. -/
def mixedStream : Bytes := [97, 10, 98, 13, 10]

theorem requests_are_lines_two_chunks :
    (∃ s, run (ReactorReads.step defaultIOConfig) { budget := defaultBudget }
        [.chunk [97, 10], .chunk [98, 13, 10]] = some s ∧
      s.outcome = some (textLines [97, 10, 98, 13, 10])) ∧
    (∃ requests left,
      handleConnection defaultIOConfig (fun _ => true) [[97, 10], [98, 13, 10]] [] [] =
        some (requests, left) ∧ requests = textLines [97, 10, 98, 13, 10]) := by
  have h := requests_are_lines defaultIOConfig
  refine ⟨⟨_, rfl, ?_⟩, ⟨_, _, rfl, ?_⟩⟩
  · refine (h.1 defaultBudget [.chunk [97, 10], .chunk [98, 13, 10]] _ rfl ?_).mpr ⟨?_, ?_⟩
    · decide
    · decide
    · decide
  · exact (h.2 (fun _ => true) [[97, 10], [98, 13, 10]] _ _ rfl).mpr (by decide)

/-- Lines of one byte. -/
def shortLines (n : Nat) : Bytes := (List.replicate n [97, lf]).flatten

section ShortLines

variable {config} {turns n : Nat}

theorem nextFrame_shortLines (n : Nat) :
    nextFrame (shortLines (n + 1)) = some ([97], 1, shortLines n) := by
  have hcrlf : breakCrlf (shortLines (n + 1)) = none := by
    rw [← Option.not_isSome_iff_eq_none, breakCrlf_isSome_iff]
    intro hsome
    obtain ⟨p, q, hsplit⟩ := hsome
    have hcr : cr ∈ shortLines (n + 1) := by
      rw [hsplit]
      exact List.mem_append_right p List.mem_cons_self
    obtain ⟨line, hline, hcr⟩ := List.mem_flatten.mp hcr
    rw [(List.mem_replicate.mp hline).2] at hcr
    revert hcr
    decide
  rw [nextFrame, hcrlf]
  rfl

theorem sizesFit_shortLines {requestBytes : Nat} (hquery : 1 ≤ config.maxQueryLength)
    (hbytes : requestBytes + n ≤ config.maxAccumulatedBytes) :
    sizesFit config turns requestBytes (shortLines n) = true := by
  induction n generalizing turns requestBytes with
  | zero => cases turns <;> rfl
  | succ n ih =>
    cases turns with
    | zero => rfl
    | succ turns =>
      simp only [sizesFit, nextFrame_shortLines, Bool.and_eq_true, decide_eq_true_eq]
      exact ⟨⟨hquery, by simp only [List.length_singleton]; omega⟩,
        ih (by simp only [List.length_singleton]; omega)⟩

theorem pendingFit_shortLines {waiting : Nat} (hturns : n < turns)
    (h : pendingFit turns waiting (shortLines n) = true) (hn : n ≠ 0) :
    waiting + n ≤ kMaxPendingFrames := by
  induction n generalizing turns waiting with
  | zero => exact absurd rfl hn
  | succ n ih =>
    obtain ⟨turns, rfl⟩ : ∃ k, turns = k + 1 := ⟨turns - 1, by omega⟩
    simp only [pendingFit, nextFrame_shortLines, Bool.and_eq_true, decide_eq_true_eq] at h
    obtain ⟨hfew, hrest⟩ := h
    by_cases hzero : n = 0
    · omega
    · have hle := ih (by omega) hrest hzero
      rw [if_neg (List.cons_ne_nil _ _)] at hle
      omega

theorem length_shortLines (n : Nat) : (shortLines n).length = 2 * n := by
  induction n with
  | zero => rfl
  | succ n ih =>
    show (shortLines n).length + 1 + 1 = 2 * (n + 1)
    omega

theorem receive_shortLines_overflow {budget : ReactorMemoryBudget}
    (hn : kMaxPendingFrames < n) :
    (ReadBuffers.receive config {} budget (shortLines n)).overflow = true := by
  by_contra hopen
  have hfits : pendingFit ((shortLines n).length + 1) 0 (shortLines n) = true :=
    (receive_overflow_iff.1 ((Bool.not_eq_true _).mp hopen)).2
  have hturns : n < (shortLines n).length + 1 := by
    rw [length_shortLines]
    omega
  have hle := pendingFit_shortLines hturns hfits (by omega)
  omega

/-- One chunk that overflows: the connection is given up. -/
theorem outcome_of_overflow {budget : ReactorMemoryBudget} {stream : Bytes}
    (h : (ReadBuffers.receive config {} budget stream).overflow = true) :
    ∃ s, run (ReactorReads.step config) { budget := budget } [.chunk stream] = some s ∧
      s.outcome = none := by
  have hrun : run (ReactorReads.step config) { budget := budget } [.chunk stream] = some
      { buffers := (ReadBuffers.receive config {} budget stream).buffers
        budget := (ReadBuffers.receive config {} budget stream).budget
        closing := (ReadBuffers.receive config {} budget stream).overflow } := rfl
  exact ⟨_, hrun, if_pos h⟩

end ShortLines

/-- **Both ends in one chunk**: one request, with the LF in it, where the stream has two lines.
    **Too many requests in one chunk**: within the limits on sizes, and the connection is given
    up. -/
theorem lines_joined_in_one_chunk :
    ((∃ s, run (ReactorReads.step defaultIOConfig) { budget := defaultBudget }
        [.chunk mixedStream, .drain] = some s ∧ s.outcome = some [[97, 10, 98]]) ∧
      handleConnection defaultIOConfig (fun _ => true) [mixedStream] [] [] =
        some ([[97, 10, 98]], []) ∧
      textLines mixedStream = [[97], [98]]) ∧
    Meets (ReactorReads.step defaultIOConfig) (fun s a => s.sizesFit defaultIOConfig a = true)
      { budget := defaultBudget } [.chunk (shortLines 1025)] ∧
    ∃ s, run (ReactorReads.step defaultIOConfig) { budget := defaultBudget }
      [.chunk (shortLines 1025)] = some s ∧ s.outcome = none := by
  have hsizes : ReadBuffers.sizesFit defaultIOConfig {} defaultBudget (shortLines 1025) = true := by
    unfold ReadBuffers.sizesFit ReactorMemoryBudget.tryAcquire
    rw [length_shortLines, List.nil_append, sizesFit_shortLines (by decide) (by decide)]
    decide
  have hover : (ReadBuffers.receive defaultIOConfig {} defaultBudget
      (shortLines 1025)).overflow = true :=
    receive_shortLines_overflow (by decide)
  exact ⟨⟨⟨_, rfl, rfl⟩, rfl, rfl⟩, ⟨hsizes, trivial⟩, outcome_of_overflow hover⟩

end Nvecd.Server

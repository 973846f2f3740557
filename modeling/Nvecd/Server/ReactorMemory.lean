/-
  File:      Nvecd/Server/ReactorMemory.lean
  Subject:   The memory budget that all reactor connections share.

  Bytes are charged when a chunk is taken or a response is queued, and given back in four places:
  a delimiter when its request is framed, a request when a worker takes it, what a send sent, and
  the rest when the connection goes. `budget_conserved`: the budget holds what the connections
  hold, whatever the interleaving.

  * `WriteBuffers` -- what `write_mutex_` guards, with `enqueue` and `send`;
  * `Reactor`, `ReactorAction`, `Reactor.step` -- any number of connections and one budget;
  * `Reactor.Inv`, `Reactor.Inv.step`, `budget_conserved`.
-/
import Nvecd.Server.Framing
import Nvecd.Server.ResponseFraming
import Mathlib.Algebra.BigOperators.Group.List.Basic

namespace Nvecd.Server

open Nvecd.Lib Nvecd.Storage

/-! ## 1. Responses that wait -/

def kReadChunkBytes : Nat := 4096

def kMaxWriteQueueBytes : Nat := 16 * 1024 * 1024

/-- What `write_mutex_` guards. -/
structure WriteBuffers where
  responses : List Bytes := []
  responseOffset : Nat := 0
  responseBytes : Nat := 0
  deriving DecidableEq

namespace WriteBuffers

/-- The critical section of `EnqueueResponse`; `none` where the response is refused. -/
def enqueue (w : WriteBuffers) (budget : ReactorMemoryBudget) (framed : Bytes) :
    Option (WriteBuffers × ReactorMemoryBudget) :=
  if w.responseBytes + framed.length > kMaxWriteQueueBytes then none
  else
    match budget.tryAcquire framed.length with
    | none => none
    | some budget =>
      some ({ w with
        responseBytes := w.responseBytes + framed.length
        responses := w.responses ++ [framed] }, budget)

/-- A turn of the loop of `OnWritable` in which `sent` bytes of the first response are sent. -/
def send (w : WriteBuffers) (sent : Nat) : WriteBuffers :=
  match w.responses with
  | [] => w
  | response :: responses =>
    if w.responseOffset + sent = response.length then
      { responses := responses, responseOffset := 0, responseBytes := w.responseBytes - sent }
    else
      { w with
        responseOffset := w.responseOffset + sent
        responseBytes := w.responseBytes - sent }

/-- The bytes that are queued and not sent. -/
def unsent (w : WriteBuffers) : Nat := (w.responses.map List.length).sum - w.responseOffset

end WriteBuffers

/-! ## 2. Connections with one budget -/

/-- The turn of `OnReadable` that holds `read_mutex_`. -/
structure ReadHold where
  queued : Bool := false
  overflow : Bool := false
  deriving DecidableEq

/-- The buffers of one connection, with the turn that is framing. -/
structure ConnectionBuffers where
  read : ReadBuffers := {}
  holding : Option ReadHold := none
  write : WriteBuffers := {}
  deriving DecidableEq

structure Reactor where
  budget : ReactorMemoryBudget
  connections : List ConnectionBuffers := []
  deriving DecidableEq

/-- The steps of all threads, each with the place of its connection. -/
inductive ReactorAction where
  | create
  | accept (i : Nat) (chunk : Bytes)
  | frame (i : Nat)
  | dequeue (i : Nat)
  | enqueue (i : Nat) (response : Bytes)
  | send (i sent : Nat)
  | destroy (i : Nat)

/-- What the destructor gives back. -/
def ConnectionBuffers.charged (c : ConnectionBuffers) : Nat :=
  c.read.accumulated.length + c.read.requestBytes + c.write.responseBytes

variable (config : IOConfig)

/-- A turn of the framing loop with the budget as it is now; the lock is left behind the last. -/
def ConnectionBuffers.frame (c : ConnectionBuffers) (hold : ReadHold)
    (budget : ReactorMemoryBudget) : ConnectionBuffers × ReactorMemoryBudget :=
  let t : ReadTurn :=
    { buffers := c.read, budget := budget, queued := hold.queued, overflow := hold.overflow }
  match frameStep config t with
  | none => ({ c with read := t.pause.buffers, holding := none }, budget)
  | some t' =>
    ({ c with read := t'.buffers, holding := some { queued := t'.queued, overflow := t'.overflow } },
      t'.budget)

/-- **A step**; `none` where it cannot be taken: there is no such connection, its `read_mutex_` is
    held, nothing waits, or the kernel does not do so. -/
def Reactor.step (r : Reactor) : ReactorAction → Option Reactor
  | .create => some { r with connections := r.connections ++ [{}] }
  | .accept i chunk =>
    match r.connections[i]? with
    | none => none
    | some c =>
      if c.holding.isSome ∨ chunk = [] ∨ kReadChunkBytes < chunk.length then none
      else
        let t := c.read.accept config r.budget chunk
        -- an overflow leaves the critical section at once
        let holding := if t.overflow then none else some ({} : ReadHold)
        some { r with
          budget := t.budget
          connections := r.connections.set i { c with read := t.buffers, holding := holding } }
  | .frame i =>
    match r.connections[i]? with
    | none => none
    | some c =>
      match c.holding with
      | none => none
      | some hold =>
        let (c', budget) := c.frame config hold r.budget
        some { r with budget := budget, connections := r.connections.set i c' }
  | .dequeue i =>
    match r.connections[i]? with
    | none => none
    | some c =>
      if c.holding.isSome then none
      else
        match c.read.dequeue with
        | none => none
        | some (request, read, _) =>
          some { r with
            budget := r.budget.release request.length
            connections := r.connections.set i { c with read := read } }
  | .enqueue i response =>
    match r.connections[i]? with
    | none => none
    | some c =>
      match c.write.enqueue r.budget (normalizeResponse response) with
      | none => some r
      | some (write, budget) =>
        some { r with
          budget := budget
          connections := r.connections.set i { c with write := write } }
  | .send i sent =>
    match r.connections[i]? with
    | none => none
    | some c =>
      match c.write.responses with
      | [] => none
      | response :: _ =>
        -- `send` is asked for the rest of the first response
        if sent = 0 ∨ response.length - c.write.responseOffset < sent then none
        else
          some { r with
            budget := r.budget.release sent
            connections := r.connections.set i { c with write := c.write.send sent } }
  | .destroy i =>
    match r.connections[i]? with
    | none => none
    | some c =>
      if c.holding.isSome then none
      else
        some { r with
          budget := r.budget.release c.charged
          connections := r.connections.eraseIdx i }

/-! ## 3. What is charged -/

section Budget

variable {m m' : ReactorMemoryBudget} {n : Nat}

theorem ReactorMemoryBudget.tryAcquire_some (hle : m.usedBytes.toNat ≤ m.limitBytes.toNat)
    (h : m.tryAcquire n = some m') :
    m'.limitBytes = m.limitBytes ∧ m'.usedBytes.toNat = m.usedBytes.toNat + n ∧
      m'.usedBytes.toNat ≤ m'.limitBytes.toNat := by
  unfold ReactorMemoryBudget.tryAcquire at h
  split at h
  · rename_i hfree
    obtain rfl := Option.some.inj h
    rw [UInt64.toNat_sub_of_le _ _ (UInt64.le_iff_toNat_le.mpr hle)] at hfree
    have hlimit := m.limitBytes.toNat_lt
    have hused : (m.usedBytes + UInt64.ofNat n).toNat = m.usedBytes.toNat + n := by
      rw [UInt64.toNat_add, UInt64.toNat_ofNat']
      omega
    refine ⟨rfl, hused, ?_⟩
    show (m.usedBytes + UInt64.ofNat n).toNat ≤ m.limitBytes.toNat
    omega
  · cases h

theorem ReactorMemoryBudget.release_used (h : n ≤ m.usedBytes.toNat) :
    (m.release n).usedBytes.toNat = m.usedBytes.toNat - n := by
  have hused := m.usedBytes.toNat_lt
  have hn : (UInt64.ofNat n).toNat = n := by
    rw [UInt64.toNat_ofNat']
    omega
  show (m.usedBytes - UInt64.ofNat n).toNat = _
  rw [UInt64.toNat_sub_of_le _ _ (UInt64.le_iff_toNat_le.mpr (by omega)), hn]

end Budget

/-- The byte counters are those of the queues. -/
structure ConnectionBuffers.Sound (c : ConnectionBuffers) : Prop where
  requests : c.read.requestBytes = (c.read.requests.map List.length).sum
  responses : c.write.responseBytes + c.write.responseOffset =
    (c.write.responses.map List.length).sum

/-- The bytes that a connection holds: unframed, in requests that wait, and unsent. -/
def ConnectionBuffers.held (c : ConnectionBuffers) : Nat :=
  c.read.accumulated.length + (c.read.requests.map List.length).sum + c.write.unsent

theorem ConnectionBuffers.Sound.charged_eq {c : ConnectionBuffers} (h : c.Sound) :
    c.charged = c.held := by
  have hresponses := h.responses
  unfold ConnectionBuffers.charged ConnectionBuffers.held WriteBuffers.unsent
  rw [h.requests]
  omega

/-- **The invariant**: every connection's counters are right, and the budget is charged with them. -/
structure Reactor.Inv (limitBytes : UInt64) (r : Reactor) : Prop where
  sound : ∀ c ∈ r.connections, c.Sound
  limit : r.budget.limitBytes = limitBytes
  conserved : r.budget.usedBytes.toNat = (r.connections.map ConnectionBuffers.charged).sum
  bounded : r.budget.usedBytes.toNat ≤ r.budget.limitBytes.toNat

section Step

variable {config} {r r' : Reactor} {c c' : ConnectionBuffers} {i : Nat}
  {budget : ReactorMemoryBudget} {limitBytes : UInt64}

theorem sum_charged_set (hc : r.connections[i]? = some c) (c' : ConnectionBuffers) :
    ((r.connections.set i c').map ConnectionBuffers.charged).sum + c.charged =
      (r.connections.map ConnectionBuffers.charged).sum + c'.charged := by
  obtain ⟨hlt, rfl⟩ := List.getElem?_eq_some_iff.mp hc
  have hsplit : r.connections =
      r.connections.take i ++ r.connections[i] :: r.connections.drop (i + 1) := by simp
  rw [List.set_eq_take_append_cons_drop, if_pos hlt]
  nth_rewrite 4 [hsplit]
  simp only [List.map_append, List.map_cons, List.sum_append, List.sum_cons]
  omega

theorem sum_charged_eraseIdx (hc : r.connections[i]? = some c) :
    ((r.connections.eraseIdx i).map ConnectionBuffers.charged).sum + c.charged =
      (r.connections.map ConnectionBuffers.charged).sum := by
  obtain ⟨hlt, rfl⟩ := List.getElem?_eq_some_iff.mp hc
  have hsplit : r.connections =
      r.connections.take i ++ r.connections[i] :: r.connections.drop (i + 1) := by simp
  rw [List.eraseIdx_eq_take_drop_succ]
  nth_rewrite 4 [hsplit]
  simp only [List.map_append, List.map_cons, List.sum_append, List.sum_cons]
  omega

/-- **A step at one connection**: what it charges more the budget is charged more. -/
theorem Reactor.Inv.set (h : r.Inv limitBytes) (hc : r.connections[i]? = some c)
    (hsound : c'.Sound) (hlimit : budget.limitBytes = r.budget.limitBytes)
    (hused : budget.usedBytes.toNat + c.charged = r.budget.usedBytes.toNat + c'.charged)
    (hbounded : budget.usedBytes.toNat ≤ budget.limitBytes.toNat) :
    ({ budget := budget, connections := r.connections.set i c' } : Reactor).Inv limitBytes where
  sound d hd := by
    rcases List.mem_or_eq_of_mem_set hd with hin | rfl
    · exact h.sound d hin
    · exact hsound
  limit := hlimit.trans h.limit
  conserved := by
    have hsum := sum_charged_set hc c'
    have hconserved := h.conserved
    show budget.usedBytes.toNat = ((r.connections.set i c').map ConnectionBuffers.charged).sum
    omega
  bounded := hbounded

/-- What one connection gives back is no more than the budget is charged with. -/
theorem Reactor.Inv.release_used (h : r.Inv limitBytes) (hc : r.connections[i]? = some c) {n : Nat}
    (hn : n ≤ c.charged) :
    (r.budget.release n).usedBytes.toNat + n = r.budget.usedBytes.toNat ∧
      (r.budget.release n).usedBytes.toNat ≤ (r.budget.release n).limitBytes.toNat := by
  have hsum := sum_charged_eraseIdx hc
  have hconserved := h.conserved
  have hbounded := h.bounded
  have hrelease := ReactorMemoryBudget.release_used (m := r.budget) (n := n) (by omega)
  rw [hrelease]
  refine ⟨by omega, ?_⟩
  show _ ≤ r.budget.limitBytes.toNat
  omega

/-- A turn of the framing loop gives back what leaves the buffers. -/
theorem frame_spec (hold : ReadHold) (hsound : c.Sound) :
    ∃ delimiter, (c.frame config hold budget).2 = budget.release delimiter ∧
      (c.frame config hold budget).1.charged + delimiter = c.charged ∧
      (c.frame config hold budget).1.Sound := by
  have hzero : budget.release 0 = budget := by simp [ReactorMemoryBudget.release]
  unfold ConnectionBuffers.frame
  dsimp only
  split
  · refine ⟨0, hzero.symm, ?_, ?_⟩
    · unfold ReadTurn.pause ConnectionBuffers.charged
      split
      · rfl
      · rfl
    · unfold ReadTurn.pause
      split
      · exact ⟨hsound.requests, hsound.responses⟩
      · exact ⟨hsound.requests, hsound.responses⟩
  · rename_i t' hstep
    obtain ⟨_, rfl | ⟨request, delimiter, rest, hframe, _, _, _, hbudget, hbuffers, _⟩⟩ :=
      frameStep_cases hstep
    · exact ⟨0, hzero.symm, rfl, ⟨hsound.requests, hsound.responses⟩⟩
    · refine ⟨delimiter, hbudget, ?_, ?_, hsound.responses⟩
      · have hlen : c.read.accumulated.length = request.length + delimiter + rest.length :=
          (length_nextFrame hframe).1
        simp only [ConnectionBuffers.charged, hbuffers]
        omega
      · have hrequests := hsound.requests
        simp only [hbuffers, List.map_append, List.sum_append]
        by_cases hnil : request = []
        · simp [hnil, hrequests]
        · simp [hnil, hrequests]

/-- A request that is taken is given back in full. -/
theorem dequeue_spec {request : Bytes} {read : ReadBuffers} {resume : Bool} (hsound : c.Sound)
    (h : c.read.dequeue = some (request, read, resume)) :
    ({ c with read := read } : ConnectionBuffers).charged + request.length = c.charged ∧
      ({ c with read := read } : ConnectionBuffers).Sound := by
  have hrequests := hsound.requests
  unfold ReadBuffers.dequeue at h
  split at h
  · cases h
  · rename_i request' requests hqueue
    rw [hqueue, List.map_cons, List.sum_cons] at hrequests
    obtain ⟨rfl, hrest⟩ := Prod.mk.inj (Option.some.inj h)
    obtain ⟨rfl, _⟩ := Prod.mk.inj hrest
    refine ⟨?_, ⟨?_, hsound.responses⟩⟩
    · simp only [ConnectionBuffers.charged]
      omega
    · show c.read.requestBytes - request'.length = (requests.map List.length).sum
      omega

theorem enqueue_spec {framed : Bytes} {write : WriteBuffers} {budget' : ReactorMemoryBudget}
    (hsound : c.Sound) (h : c.write.enqueue budget framed = some (write, budget')) :
    budget.tryAcquire framed.length = some budget' ∧
      ({ c with write := write } : ConnectionBuffers).charged = c.charged + framed.length ∧
      ({ c with write := write } : ConnectionBuffers).Sound := by
  have hresponses := hsound.responses
  unfold WriteBuffers.enqueue at h
  split at h
  · cases h
  · split at h
    · cases h
    · rename_i acquired hacquire
      obtain ⟨rfl, rfl⟩ := Prod.mk.inj (Option.some.inj h)
      refine ⟨hacquire, ?_, ⟨hsound.requests, ?_⟩⟩
      · simp only [ConnectionBuffers.charged]
        omega
      · simp only [List.map_append, List.sum_append, List.map_cons, List.map_nil, List.sum_cons,
          List.sum_nil]
        omega

/-- What is sent is given back. -/
theorem send_spec {response : Bytes} {responses : List Bytes} {sent : Nat} (hsound : c.Sound)
    (hqueue : c.write.responses = response :: responses)
    (hsent : sent ≤ response.length - c.write.responseOffset) (hpos : 0 < sent) :
    ({ c with write := c.write.send sent } : ConnectionBuffers).charged + sent = c.charged ∧
      ({ c with write := c.write.send sent } : ConnectionBuffers).Sound := by
  have hresponses := hsound.responses
  rw [hqueue, List.map_cons, List.sum_cons] at hresponses
  unfold WriteBuffers.send
  rw [hqueue]
  dsimp only
  split
  · refine ⟨?_, ⟨hsound.requests, ?_⟩⟩
    · simp only [ConnectionBuffers.charged]
      omega
    · show c.write.responseBytes - sent + 0 = (responses.map List.length).sum
      omega
  · refine ⟨?_, ⟨hsound.requests, ?_⟩⟩
    · simp only [ConnectionBuffers.charged]
      omega
    · show c.write.responseBytes - sent + (c.write.responseOffset + sent) =
        ((response :: responses).map List.length).sum
      rw [List.map_cons, List.sum_cons]
      omega

/-- A chunk that is taken is charged in full, and one that is not changes nothing. -/
theorem accept_spec (b : ReadBuffers) (chunk : Bytes) :
    (b.accept config budget chunk = { buffers := b, budget := budget, overflow := true }) ∨
    ∃ budget', budget.tryAcquire chunk.length = some budget' ∧
      b.accept config budget chunk =
        { buffers := { b with accumulated := b.accumulated ++ chunk }, budget := budget' } := by
  unfold ReadBuffers.accept
  split
  · exact .inl rfl
  · split
    · exact .inl rfl
    · rename_i budget' hacquire
      exact .inr ⟨budget', hacquire, rfl⟩

/-- **One step** keeps the invariant. -/
theorem Reactor.Inv.step (h : r.Inv limitBytes) (a : ReactorAction)
    (hstep : r.step config a = some r') : r'.Inv limitBytes := by
  cases a with
  | create =>
    obtain rfl := Option.some.inj hstep
    refine ⟨?_, h.limit, ?_, h.bounded⟩
    · intro c hc
      rcases List.mem_append.mp hc with hin | hnew
      · exact h.sound c hin
      · rw [List.mem_singleton.mp hnew]
        exact ⟨rfl, rfl⟩
    · simp only [List.map_append, List.sum_append]
      exact h.conserved
  | accept i chunk =>
    simp only [Reactor.step] at hstep
    split at hstep
    · cases hstep
    · rename_i c hc
      have hsound := h.sound c (List.mem_of_getElem? hc)
      split at hstep
      · cases hstep
      · obtain rfl := Option.some.inj hstep
        rcases accept_spec c.read chunk with heq | ⟨budget', hacquire, heq⟩
        · rw [heq]
          exact h.set hc ⟨hsound.requests, hsound.responses⟩ rfl rfl h.bounded
        · obtain ⟨hlimit, hused, hbounded⟩ :=
            ReactorMemoryBudget.tryAcquire_some h.bounded hacquire
          rw [heq]
          refine h.set hc ⟨hsound.requests, hsound.responses⟩ hlimit ?_ hbounded
          simp only [ConnectionBuffers.charged, List.length_append]
          omega
  | frame i =>
    simp only [Reactor.step] at hstep
    split at hstep
    · cases hstep
    · rename_i c hc
      split at hstep
      · cases hstep
      · rename_i hold _
        obtain rfl := Option.some.inj hstep
        obtain ⟨delimiter, hbudget, hcharged, hsound⟩ :=
          frame_spec hold (h.sound c (List.mem_of_getElem? hc))
        obtain ⟨hused, hbounded⟩ := h.release_used hc (show delimiter ≤ c.charged by omega)
        rw [hbudget]
        exact h.set hc hsound rfl (by omega) hbounded
  | dequeue i =>
    simp only [Reactor.step] at hstep
    split at hstep
    · cases hstep
    · rename_i c hc
      split at hstep
      · cases hstep
      · split at hstep
        · cases hstep
        · rename_i request read resume hdequeue
          obtain rfl := Option.some.inj hstep
          obtain ⟨hcharged, hsound⟩ :=
            dequeue_spec (h.sound c (List.mem_of_getElem? hc)) hdequeue
          obtain ⟨hused, hbounded⟩ :=
            h.release_used hc (show request.length ≤ c.charged by omega)
          exact h.set hc hsound rfl (by omega) hbounded
  | enqueue i response =>
    simp only [Reactor.step] at hstep
    split at hstep
    · cases hstep
    · rename_i c hc
      split at hstep
      · obtain rfl := Option.some.inj hstep
        exact h
      · rename_i write budget' henqueue
        obtain rfl := Option.some.inj hstep
        obtain ⟨hacquire, hcharged, hsound⟩ :=
          enqueue_spec (h.sound c (List.mem_of_getElem? hc)) henqueue
        obtain ⟨hlimit, hused, hbounded⟩ :=
          ReactorMemoryBudget.tryAcquire_some h.bounded hacquire
        exact h.set hc hsound hlimit (by omega) hbounded
  | send i sent =>
    simp only [Reactor.step] at hstep
    split at hstep
    · cases hstep
    · rename_i c hc
      split at hstep
      · cases hstep
      · rename_i response responses hqueue
        split at hstep
        · cases hstep
        · rename_i hsent
          rw [not_or] at hsent
          obtain rfl := Option.some.inj hstep
          obtain ⟨hcharged, hsound⟩ := send_spec (h.sound c (List.mem_of_getElem? hc)) hqueue
            (Nat.le_of_not_lt hsent.2) (Nat.pos_of_ne_zero hsent.1)
          obtain ⟨hused, hbounded⟩ := h.release_used hc (show sent ≤ c.charged by omega)
          exact h.set hc hsound rfl (by omega) hbounded
  | destroy i =>
    simp only [Reactor.step] at hstep
    split at hstep
    · cases hstep
    · rename_i c hc
      split at hstep
      · cases hstep
      · obtain rfl := Option.some.inj hstep
        obtain ⟨hused, hbounded⟩ := h.release_used hc (Nat.le_refl c.charged)
        refine ⟨fun d hd => h.sound d (List.mem_of_mem_eraseIdx hd), h.limit, ?_, hbounded⟩
        have hsum := sum_charged_eraseIdx hc
        have hconserved := h.conserved
        show (r.budget.release c.charged).usedBytes.toNat =
          ((r.connections.eraseIdx i).map ConnectionBuffers.charged).sum
        omega

end Step

theorem Reactor.inv_start (limitBytes : UInt64) :
    ({ budget := { limitBytes := limitBytes } } : Reactor).Inv limitBytes :=
  ⟨fun _ hc => absurd hc List.not_mem_nil, rfl, rfl, Nat.zero_le _⟩

/-- **The budget is conserved**: after every run of steps of any number of connections it is
    charged with what these hold, so it is within its limit, and 0 when they are gone. -/
theorem budget_conserved (limitBytes : UInt64) (actions : List ReactorAction) (r : Reactor)
    (hrun : run (Reactor.step config) { budget := { limitBytes := limitBytes } } actions =
      some r) :
    r.budget.usedBytes.toNat = (r.connections.map ConnectionBuffers.held).sum ∧
      r.budget.usedBytes ≤ limitBytes ∧
      (r.connections = [] → r.budget.usedBytes = 0) := by
  have hinv : r.Inv limitBytes := run_inv (fun _ a _ h hstep => h.step a hstep)
    (Reactor.inv_start limitBytes) hrun
  have hheld : r.connections.map ConnectionBuffers.charged =
      r.connections.map ConnectionBuffers.held :=
    List.map_congr_left fun c hc => (hinv.sound c hc).charged_eq
  refine ⟨hheld ▸ hinv.conserved, ?_, fun hnil => ?_⟩
  · rw [← hinv.limit]
    exact UInt64.le_iff_toNat_le.mpr hinv.bounded
  · rw [← UInt64.toNat_inj, hinv.conserved, hnil]
    rfl

/-- Two connections: one has a request and half a line, the other has sent a part of its answer
    and goes. -/
def budgetRun : List ReactorAction :=
  [.create, .accept 0 [97, 10, 98], .create, .frame 0, .enqueue 1 [79, 75], .frame 0, .send 1 3,
    .destroy 1]

theorem budget_conserved_budgetRun :
    ∃ r, run (Reactor.step defaultIOConfig) { budget := { limitBytes := 8 } } budgetRun = some r ∧
      r.budget.usedBytes.toNat = 2 ∧
      r.budget.usedBytes.toNat = (r.connections.map ConnectionBuffers.held).sum := by
  refine ⟨_, rfl, by decide +kernel, ?_⟩
  exact (budget_conserved defaultIOConfig 8 budgetRun _ rfl).1

end Nvecd.Server

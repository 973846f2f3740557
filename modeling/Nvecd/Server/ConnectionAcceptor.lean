/-
  File:      Nvecd/Server/ConnectionAcceptor.lean
  Subject:   Who owns an accepted descriptor, and who counts it (`connection_acceptor.cpp`, the
             registration callbacks of `nvecd_server.cpp`, `io_reactor.cpp`, the destructor in
             `reactor_connection.cpp`).

  Two accept threads, the event loop with its reaper, the workers and `Stop` share one space of
  descriptor numbers. A step is a critical section, a call of the kernel or an access to an atomic.
  A connection is an object behind a `shared_ptr`; where the last reference goes its destructor
  closes the number.

  * `Kernel` -- which descriptor has which number, and what every `close` hit;
  * `AcceptorTables` -- `active_fds_`, `per_ip_connections_`, `fd_to_ip_`;
  * `AcceptPc` -- `AcceptLoop`, with `register_connection` and `IoReactor::Register` inside it;
  * `Closer` -- whoever holds a reference, and `IoReactor::Unregister`;
  * `ConnectionState.step` -- all of them, in any order.
-/
import Nvecd.Lib.AssocMap
import Nvecd.Lib.Machine
import Nvecd.Storage.WalFormat

namespace Nvecd.Server

open Nvecd.Lib Nvecd.Storage

/-! ## 1. Descriptors -/

/-- The two acceptors. -/
inductive Listener where
  | tcp
  | unix
  deriving DecidableEq, Repr

/-- A connection that was accepted. The serial tells it from others with the same number. -/
structure Socket where
  serial : Nat
  fd : Nat
  listener : Listener
  clientIp : Bytes
  deriving DecidableEq, Repr

/-- The kernel's side: the descriptor under each open number, and for every `close` which one was
    meant and which one was there. -/
structure Kernel where
  opened : AssocMap Nat Nat := .empty
  accepts : Nat := 0
  closes : List (Nat × Option Nat) := []

/-- `accept`, with a number that is free. -/
def Kernel.accept (k : Kernel) (fd : Nat) : Kernel :=
  { k with opened := k.opened.insert fd k.accepts, accepts := k.accepts + 1 }

/-- `close`, of the number alone. -/
def Kernel.close (k : Kernel) (c : Socket) : Kernel :=
  { k with
    opened := k.opened.erase c.fd
    closes := k.closes ++ [(c.serial, k.opened.find? c.fd)] }

/-! ## 2. The acceptor's tables -/

/-- What `fds_mutex_` protects. -/
structure AcceptorTables where
  activeFds : List Nat := []
  perIpConnections : AssocMap Bytes Nat := .empty
  fdToIp : AssocMap Nat Bytes := .empty

/-- The limits; a limit for an address that is not positive is none. -/
structure ConnectionLimits where
  maxConnections : Nat
  maxConnectionsPerIp : Int
  /-- `int`. -/
  maxConnections_le : maxConnections ≤ 2147483647

/-- The address of a Unix connection. -/
def kUnixAddress : Bytes := [117, 110, 105, 120]

/-- `!client_ip.empty() && client_ip != "unix"`. -/
def countsIp (clientIp : Bytes) : Bool := clientIp ≠ [] && clientIp ≠ kUnixAddress

namespace AcceptorTables

/-- Has the address reached its limit? -/
def ipLimitReached (t : AcceptorTables) (limits : ConnectionLimits) (clientIp : Bytes) : Bool :=
  0 < limits.maxConnectionsPerIp && countsIp clientIp &&
    (t.perIpConnections.find? clientIp).any fun count : Nat =>
      limits.maxConnectionsPerIp ≤ (count : Int)

/-- The tracking of `AcceptLoop`. -/
def track (t : AcceptorTables) (c : Socket) : AcceptorTables :=
  let activeFds := if c.fd ∈ t.activeFds then t.activeFds else c.fd :: t.activeFds
  if countsIp c.clientIp then {
    activeFds := activeFds
    perIpConnections := t.perIpConnections.insert c.clientIp
      ((t.perIpConnections.find? c.clientIp).getD 0 + 1)
    fdToIp := t.fdToIp.insert c.fd c.clientIp }
  else { t with activeFds := activeFds }

/-- `RemoveConnection`. -/
def removeConnection (t : AcceptorTables) (fd : Nat) : AcceptorTables :=
  match t.fdToIp.find? fd with
  | none => { t with activeFds := t.activeFds.erase fd }
  | some clientIp =>
    let count := (t.perIpConnections.find? clientIp).getD 0 - 1
    { activeFds := t.activeFds.erase fd
      perIpConnections :=
        if count = 0 then t.perIpConnections.erase clientIp
        else t.perIpConnections.insert clientIp count
      fdToIp := t.fdToIp.erase fd }

end AcceptorTables

/-! ## 3. The threads -/

/-- **The accept thread.** -/
inductive AcceptPc where
  | idle
  /-- `accept` has returned; the number of connections is checked next. -/
  | accepted (c : Socket)
  | acl (c : Socket)
  | perIp (c : Socket)
  /-- Closed next. -/
  | rejected (c : Socket)
  | tracking (c : Socket)
  /-- `register_connection` makes the object and counts it. -/
  | counting (c : Socket)
  /-- `Register` waits for `lifecycle_mutex_`. -/
  | registering (c : Socket)
  /-- Is the reactor running? -/
  | checking (c : Socket)
  /-- `fcntl`. -/
  | settingFlags (c : Socket)
  | emplacing (c : Socket)
  /-- The entry is in the map, and goes to the multiplexer. -/
  | adding (c : Socket)
  /-- The multiplexer has refused it. -/
  | unplacing (c : Socket)
  /-- `Register` has failed and still has the object. -/
  | refused (c : Socket)
  | uncounting (c : Socket)
  | closing (c : Socket)
  | untracking (c : Socket)
  deriving DecidableEq, Repr

/-- The reference of an accept thread. -/
def AcceptPc.object : AcceptPc → Option Socket
  | .registering c | .checking c | .settingFlags c | .emplacing c | .refused c => some c
  | _ => none

/-- Where `Unregister` stands, after it has taken the entry out. -/
inductive UnregisterStage where
  | removeTcp
  | removeUnix
  | uncount
  | release
  deriving DecidableEq, Repr

/-- **A holder of a reference**: the event loop, the reaper, a worker; or `Stop`, which has the
    number only. -/
inductive Closer where
  | watching (c : Socket)
  | stopping (fd : Nat)
  /-- In `Unregister`, with the reference of the entry and its own. -/
  | taken (c : Socket) (stage : UnregisterStage) (handle : Option Socket)
  deriving DecidableEq, Repr

/-- Its references. -/
def Closer.objects : Closer → List Socket
  | .watching c => [c]
  | .stopping _ => []
  | .taken c _ handle => c :: handle.toList

/-- It has taken an entry out. -/
def Closer.inUnregister : Closer → Bool
  | .taken _ _ _ => true
  | _ => false

/-- `lifecycle_mutex_`. -/
inductive LifecycleLock where
  | free
  | registration (l : Listener)
  | stop
  deriving DecidableEq, Repr

structure ConnectionState where
  kernel : Kernel := {}
  tables : Listener → AcceptorTables := fun _ => {}
  threads : Listener → AcceptPc := fun _ => .idle
  /-- `IoReactor::connections_`. -/
  connections : AssocMap Nat Socket := .empty
  lifecycle : LifecycleLock := .free
  running : Bool := true
  /-- `stats_.active_connections`. -/
  activeConnections : Nat := 0
  closers : List Closer := []

namespace ConnectionState

/-- Every reference to an object. -/
def objects (s : ConnectionState) : List Socket :=
  (s.threads .tcp).object.toList ++ (s.threads .unix).object.toList ++
    s.connections.entries.map (·.2) ++ s.closers.flatMap Closer.objects

def close (s : ConnectionState) (c : Socket) : ConnectionState :=
  { s with kernel := s.kernel.close c }

/-- A reference is gone; after the last one the destructor runs. -/
def release (s : ConnectionState) (c : Socket) : ConnectionState :=
  if c ∈ s.objects then s else s.close c

def setThread (s : ConnectionState) (l : Listener) (pc : AcceptPc) : ConnectionState :=
  { s with threads := Function.update s.threads l pc }

def setTables (s : ConnectionState) (l : Listener) (t : AcceptorTables) : ConnectionState :=
  { s with tables := Function.update s.tables l t }

/-- `fetch_add` and `fetch_sub` of a `uint64_t`. -/
def count (s : ConnectionState) : ConnectionState :=
  { s with activeConnections := (s.activeConnections + 1) % 2 ^ 64 }

def uncount (s : ConnectionState) : ConnectionState :=
  { s with
    activeConnections := if s.activeConnections = 0 then 2 ^ 64 - 1 else s.activeConnections - 1 }

/-- **The accept thread.** `reply` is what the access list, `fcntl` or the multiplexer says. -/
def acceptStep (limits : ConnectionLimits) (s : ConnectionState) (l : Listener) (reply : Bool) :
    Option ConnectionState :=
  match s.threads l with
  | .idle => none
  | .accepted c =>
    some (s.setThread l
      (if limits.maxConnections ≤ (s.tables l).activeFds.length then .rejected c else .acl c))
  | .acl c => some (s.setThread l (if l = .tcp ∧ reply = false then .rejected c else .perIp c))
  | .perIp c =>
    some (s.setThread l
      (if (s.tables l).ipLimitReached limits c.clientIp then .rejected c else .tracking c))
  | .rejected c => some ((s.close c).setThread l .idle)
  | .tracking c => some ((s.setTables l ((s.tables l).track c)).setThread l (.counting c))
  | .counting c => some (s.count.setThread l (.registering c))
  | .registering c =>
    if s.lifecycle = .free then
      some ({ s with lifecycle := .registration l }.setThread l (.checking c))
    else none
  | .checking c => some (s.setThread l (if s.running then .settingFlags c else .refused c))
  | .settingFlags c => some (s.setThread l (if reply then .emplacing c else .refused c))
  | .emplacing c =>
    if s.connections.contains c.fd then some (s.setThread l (.refused c))
    else some ({ s with connections := s.connections.insert c.fd c }.setThread l (.adding c))
  | .adding c =>
    if reply then some ({ s with lifecycle := .free }.setThread l .idle)
    else some (s.setThread l (.unplacing c))
  | .unplacing c =>
    let s' := { s with
      connections := s.connections.erase c.fd, lifecycle := .free }.setThread l (.uncounting c)
    match s.connections.find? c.fd with
    | none => some s'
    | some found => some (s'.release found)
  | .refused c => some (({ s with lifecycle := .free }.setThread l (.uncounting c)).release c)
  | .uncounting c => some (s.uncount.setThread l (.closing c))
  | .closing c => some ((s.close c).setThread l (.untracking c))
  | .untracking c =>
    some ((s.setTables l ((s.tables l).removeConnection c.fd)).setThread l .idle)

/-- The entry under the number, unless it is another's. -/
def entryOf (s : ConnectionState) (fd : Nat) (expectedOwner : Option Socket) : Option Socket :=
  (s.connections.find? fd).filter fun c => expectedOwner.all fun owner => c = owner

/-- The first step of `Unregister`. -/
def take (s : ConnectionState) (fd : Nat) (expectedOwner : Option Socket) (missing : List Closer) :
    ConnectionState :=
  match s.entryOf fd expectedOwner with
  | none => { s with closers := missing ++ s.closers }
  | some c =>
    { s with
      connections := s.connections.erase fd
      closers := .taken c .removeTcp expectedOwner :: s.closers }

/-- **`Unregister`**, by one that has left the list: `s` is the state without it. -/
def unregisterStep (s : ConnectionState) : Closer → ConnectionState
  | .watching c => s.take c.fd (some c) [.watching c]
  | .stopping fd => s.take fd none []
  | .taken c .removeTcp handle =>
    { s.setTables .tcp ((s.tables .tcp).removeConnection c.fd) with
      closers := .taken c .removeUnix handle :: s.closers }
  | .taken c .removeUnix handle =>
    { s.setTables .unix ((s.tables .unix).removeConnection c.fd) with
      closers := .taken c .uncount handle :: s.closers }
  | .taken c .uncount handle =>
    { s.uncount with closers := .taken c .release handle :: s.closers }
  | .taken c .release handle =>
    { s with closers := handle.toList.map Closer.watching ++ s.closers }.release c

/-- What may happen next. -/
inductive Action where
  /-- An acceptor gets a descriptor. -/
  | accept (l : Listener) (fd : Nat) (clientIp : Bytes)
  /-- An accept thread goes on. -/
  | advance (l : Listener) (reply : Bool)
  /-- The event loop or the reaper takes a reference from the map. -/
  | watch (fd : Nat)
  /-- A task for a worker takes one from another holder. -/
  | share (i : Nat)
  /-- A holder calls `Unregister`, or goes on in it. -/
  | unregister (i : Nat)
  /-- A holder lets go. -/
  | drop (i : Nat)
  | stop
  /-- `Stop` comes to one of the numbers it has listed. -/
  | stopOne (fd : Nat)
  | stopped

/-- **One step.** -/
def step (limits : ConnectionLimits) (s : ConnectionState) : Action → Option ConnectionState
  | .accept l fd clientIp =>
    if s.threads l = .idle ∧ s.kernel.opened.find? fd = none then
      let address := match l with
        | .tcp => clientIp
        | .unix => kUnixAddress
      some ({ s with kernel := s.kernel.accept fd }.setThread l
        (.accepted ⟨s.kernel.accepts, fd, l, address⟩))
    else none
  | .advance l reply => s.acceptStep limits l reply
  | .watch fd =>
    match s.connections.find? fd with
    | none => none
    | some c => some { s with closers := .watching c :: s.closers }
  | .share i =>
    match s.closers[i]? with
    | some (.watching c) => some { s with closers := .watching c :: s.closers }
    | _ => none
  | .unregister i =>
    match s.closers[i]? with
    | none => none
    | some closer => some ({ s with closers := s.closers.eraseIdx i }.unregisterStep closer)
  | .drop i =>
    match s.closers[i]? with
    | some (.watching c) => some ({ s with closers := s.closers.eraseIdx i }.release c)
    | _ => none
  | .stop =>
    if s.lifecycle = .free then
      some (if s.running then { s with running := false, lifecycle := .stop } else s)
    else none
  | .stopOne fd =>
    if s.lifecycle = .stop then some { s with closers := .stopping fd :: s.closers } else none
  | .stopped => if s.lifecycle = .stop then some { s with lifecycle := .free } else none

/-- No accept and no close is half done. -/
def Quiet (s : ConnectionState) : Prop :=
  (∀ l, s.threads l = .idle) ∧ ∀ closer ∈ s.closers, closer.inUnregister = false

end ConnectionState

end Nvecd.Server

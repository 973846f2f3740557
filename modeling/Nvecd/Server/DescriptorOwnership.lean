/-
  File:      Nvecd/Server/DescriptorOwnership.lean
  Subject:   Every accepted descriptor is closed once, by its owner, and the accounts of the
             acceptors are right, as long as no registration fails.

  What the threads hold is a multiset of sockets, added up over the accept threads, the map of the
  reactor and the holders of references (`Portion.of`); a step moves a socket from one to another.

  * `Kernel.Holds` -- the kernel's table for what is held;
  * `AcceptorTables.Holds` -- the acceptor's tables for what is tracked;
  * `Portion`, `of_setThread`, `of_insert`, `of_erase`, `of_swap` -- what a step moves;
  * `ConnectionState.Inv`, `Inv.step` -- the invariant;
  * `descriptors_sound` -- every run in which no registration fails;
  * `stranger_closed` -- a run in which one fails: the object closes the descriptor, and then the
    accept thread closes the number again, which has another owner.
-/
import Nvecd.Server.ConnectionAcceptor
import Mathlib.Algebra.BigOperators.Group.List.Basic
import Mathlib.Algebra.Order.Group.Multiset
import Mathlib.Data.Set.Insert
import Mathlib.Tactic.Abel

namespace Nvecd.Server

open Nvecd.Lib Nvecd.Storage

/-! ## 1. The kernel's table -/

/-- **The table is right** for the sockets that somebody holds: they are what is open, everything
    else that was ever accepted has been closed, once, and no `close` hit another. -/
structure Kernel.Holds (k : Kernel) (held : Set Socket) : Prop where
  opened : ∀ n d, k.opened.find? n = some d ↔ ∃ c ∈ held, c.fd = n ∧ c.serial = d
  same : ∀ c ∈ held, ∀ c' ∈ held, c.serial = c'.serial → c = c'
  serials : ∀ c ∈ held, c.serial < k.accepts
  closed : ∀ d, d ∈ k.closes.map Prod.fst ↔ d < k.accepts ∧ ∀ c ∈ held, c.serial ≠ d
  hits : ∀ e ∈ k.closes, e.2 = some e.1
  once : (k.closes.map Prod.fst).Nodup

namespace Kernel.Holds

variable {k : Kernel} {held : Set Socket} {c c' : Socket}

theorem find? (h : k.Holds held) (hc : c ∈ held) : k.opened.find? c.fd = some c.serial :=
  (h.opened c.fd c.serial).mpr ⟨c, hc, rfl, rfl⟩

/-- No two are under one number. -/
theorem eq_of_fd (h : k.Holds held) (hc : c ∈ held) (hc' : c' ∈ held) (hfd : c.fd = c'.fd) :
    c = c' := by
  have hfind := h.find? hc
  rw [hfd, h.find? hc'] at hfind
  exact h.same c hc c' hc' (Option.some.inj hfind).symm

/-- A new descriptor, under a number that is free. -/
theorem accept (h : k.Holds held) (hfree : k.opened.find? c.fd = none)
    (hserial : c.serial = k.accepts) : (k.accept c.fd).Holds (insert c held) := by
  have hother : ∀ c' ∈ held, c'.fd ≠ c.fd := by
    intro c' hc' hfd
    have := h.find? hc'
    rw [hfd, hfree] at this
    cases this
  refine ⟨fun n d => ?_, ?_, ?_, fun d => ?_, h.hits, h.once⟩
  · show (k.opened.insert c.fd k.accepts).find? n = some d ↔ _
    rw [AssocMap.find?_insert]
    split
    · rename_i hn
      subst hn
      constructor
      · intro hd
        exact ⟨c, Set.mem_insert c held, rfl, hserial.trans (Option.some.inj hd)⟩
      · rintro ⟨c', hc' | hc', hfd, hd⟩
        · rw [← hd, hc', hserial]
        · exact absurd hfd (hother c' hc')
    · rename_i hn
      rw [h.opened]
      constructor
      · rintro ⟨c', hc', hrest⟩
        exact ⟨c', Set.mem_insert_of_mem c hc', hrest⟩
      · rintro ⟨c', hc' | hc', hfd, hd⟩
        · exact absurd (by rw [← hfd, hc']) hn
        · exact ⟨c', hc', hfd, hd⟩
  · rintro c₁ (rfl | h₁) c₂ (rfl | h₂) heq
    · rfl
    · have := h.serials c₂ h₂
      omega
    · have := h.serials c₁ h₁
      omega
    · exact h.same c₁ h₁ c₂ h₂ heq
  · rintro c' (rfl | hc')
    · show c'.serial < k.accepts + 1
      omega
    · exact Nat.lt_succ_of_lt (h.serials c' hc')
  · show d ∈ k.closes.map Prod.fst ↔ d < k.accepts + 1 ∧ _
    rw [h.closed]
    constructor
    · rintro ⟨hlt, hall⟩
      refine ⟨by omega, ?_⟩
      rintro c' (rfl | hc')
      · omega
      · exact hall c' hc'
    · rintro ⟨hlt, hall⟩
      have hne := hall c (Set.mem_insert c held)
      exact ⟨by omega, fun c' hc' => hall c' (Set.mem_insert_of_mem c hc')⟩

/-- The holder of a descriptor closes it. -/
theorem close (h : k.Holds held) (hc : c ∈ held) : (k.close c).Holds (held \ {c}) := by
  refine ⟨fun n d => ?_, ?_, fun c' hc' => h.serials c' hc'.1, fun d => ?_, ?_, ?_⟩
  · show (k.opened.erase c.fd).find? n = some d ↔ _
    rw [AssocMap.find?_erase]
    split
    · rename_i hn
      constructor
      · intro hd
        cases hd
      · rintro ⟨c', ⟨hc', hne⟩, hfd, -⟩
        exact absurd (h.eq_of_fd hc' hc (hfd.trans hn)) hne
    · rename_i hn
      rw [h.opened]
      constructor
      · rintro ⟨c', hc', hfd, hd⟩
        exact ⟨c', ⟨hc', fun heq => hn (by rw [← hfd, show c' = c from heq])⟩, hfd, hd⟩
      · rintro ⟨c', hc', hrest⟩
        exact ⟨c', hc'.1, hrest⟩
  · exact fun c₁ h₁ c₂ h₂ => h.same c₁ h₁.1 c₂ h₂.1
  · show d ∈ (k.closes ++ [(c.serial, k.opened.find? c.fd)]).map Prod.fst ↔ d < k.accepts ∧ _
    rw [List.map_append, List.mem_append, h.closed]
    constructor
    · rintro (⟨hlt, hall⟩ | hd)
      · exact ⟨hlt, fun c' hc' => hall c' hc'.1⟩
      · rw [List.map_singleton, List.mem_singleton] at hd
        refine ⟨hd ▸ h.serials c hc, fun c' hc' heq => hc'.2 ?_⟩
        exact h.same c' hc'.1 c hc (heq.trans hd)
    · rintro ⟨hlt, hall⟩
      by_cases hd : d = c.serial
      · exact .inr (by simp [hd])
      · refine .inl ⟨hlt, fun c' hc' heq => ?_⟩
        by_cases hcc : c' = c
        · exact hd (by rw [← heq, hcc])
        · exact hall c' ⟨hc', hcc⟩ heq
  · intro e he
    rcases List.mem_append.mp he with he | he
    · exact h.hits e he
    · rw [List.mem_singleton.mp he]
      exact h.find? hc
  · show ((k.closes ++ [(c.serial, k.opened.find? c.fd)]).map Prod.fst).Nodup
    rw [List.map_append, List.nodup_append]
    refine ⟨h.once, by simp, ?_⟩
    intro d hd d' hd' heq
    rw [List.map_singleton, List.mem_singleton] at hd'
    exact ((h.closed d).mp hd).2 c hc (by rw [heq, hd'])

end Kernel.Holds

/-! ## 2. The acceptor's tables -/

/-- A count that is not kept at 0. -/
def positive (n : Nat) : Option Nat := if n = 0 then none else some n

/-- How many have the address. -/
def addressed (sockets : Multiset Socket) (ip : Bytes) : Nat :=
  sockets.countP (·.clientIp = ip)

theorem addressed_cons (sockets : Multiset Socket) (c : Socket) (ip : Bytes) :
    addressed (c ::ₘ sockets) ip = addressed sockets ip + if c.clientIp = ip then 1 else 0 :=
  Multiset.countP_cons _ _ _

theorem addressed_cons_of_ne (sockets : Multiset Socket) {c : Socket} {ip : Bytes}
    (hne : c.clientIp ≠ ip) : addressed (c ::ₘ sockets) ip = addressed sockets ip := by
  rw [addressed_cons, if_neg hne, Nat.add_zero]

/-- **The tables are right** for the sockets that are tracked. -/
structure AcceptorTables.Holds (t : AcceptorTables) (tracked : Multiset Socket) : Prop where
  nodup : t.activeFds.Nodup
  fds : (t.activeFds : Multiset Nat) = tracked.map (·.fd)
  addresses : ∀ n ip, t.fdToIp.find? n = some ip ↔
    ∃ c ∈ tracked, c.fd = n ∧ c.clientIp = ip ∧ countsIp ip = true
  counts : ∀ ip, t.perIpConnections.find? ip =
    positive (if countsIp ip then addressed tracked ip else 0)

namespace AcceptorTables.Holds

variable {t : AcceptorTables} {tracked : Multiset Socket} {c : Socket}

theorem mem_activeFds (h : t.Holds tracked) {n : Nat} :
    n ∈ t.activeFds ↔ ∃ c ∈ tracked, c.fd = n := by
  rw [← Multiset.mem_coe, h.fds, Multiset.mem_map]

theorem length_activeFds (h : t.Holds tracked) : t.activeFds.length = tracked.card := by
  rw [← Multiset.coe_card, h.fds, Multiset.card_map]

theorem getD_count (h : t.Holds tracked) {ip : Bytes} (hip : countsIp ip = true) :
    (t.perIpConnections.find? ip).getD 0 = addressed tracked ip := by
  rw [h.counts, if_pos hip, positive]
  split
  · rename_i hzero
    rw [hzero]
    rfl
  · rfl

/-- A socket is tracked whose number is not. -/
theorem track (h : t.Holds tracked) (hnew : c.fd ∉ t.activeFds) :
    (t.track c).Holds (c ::ₘ tracked) := by
  have hnodup : (c.fd :: t.activeFds).Nodup := List.nodup_cons.mpr ⟨hnew, h.nodup⟩
  have hfds : ((c.fd :: t.activeFds : List Nat) : Multiset Nat) = (c ::ₘ tracked).map (·.fd) := by
    rw [← Multiset.cons_coe, h.fds, Multiset.map_cons]
  unfold AcceptorTables.track
  simp only [if_neg hnew]
  split
  · rename_i hip
    refine ⟨hnodup, hfds, fun n ip => ?_, fun ip => ?_⟩
    · rw [AssocMap.find?_insert]
      split
      · rename_i hn
        constructor
        · intro heq
          cases heq
          exact ⟨c, Multiset.mem_cons_self c tracked, hn.symm, rfl, hip⟩
        · rintro ⟨c', hc', hfd, hcip, -⟩
          rcases Multiset.mem_cons.mp hc' with rfl | hc'
          · rw [hcip]
          · exact absurd (h.mem_activeFds.mpr ⟨c', hc', hfd.trans hn⟩) hnew
      · rename_i hn
        rw [h.addresses]
        constructor
        · rintro ⟨c', hc', hrest⟩
          exact ⟨c', Multiset.mem_cons_of_mem hc', hrest⟩
        · rintro ⟨c', hc', hfd, hrest⟩
          rcases Multiset.mem_cons.mp hc' with rfl | hc'
          · exact absurd hfd.symm hn
          · exact ⟨c', hc', hfd, hrest⟩
    · rw [AssocMap.find?_insert]
      split
      · rename_i heq
        rw [h.getD_count hip, heq, if_pos hip, addressed_cons, if_pos rfl]
        rfl
      · rename_i hne
        rw [h.counts, addressed_cons_of_ne _ fun heq => hne heq.symm]
  · rename_i hip
    refine ⟨hnodup, hfds, fun n ip => ?_, fun ip => ?_⟩
    · rw [h.addresses]
      constructor
      · rintro ⟨c', hc', hrest⟩
        exact ⟨c', Multiset.mem_cons_of_mem hc', hrest⟩
      · rintro ⟨c', hc', hfd, hcip, hcounts⟩
        rcases Multiset.mem_cons.mp hc' with rfl | hc'
        · exact absurd (hcip ▸ hcounts) hip
        · exact ⟨c', hc', hfd, hcip, hcounts⟩
    · rw [h.counts]
      split
      · rename_i hcounts
        have hne : c.clientIp ≠ ip := fun heq => hip (heq ▸ hcounts)
        rw [addressed_cons_of_ne _ hne]
      · rfl

/-- The number of a tracked socket is removed. -/
theorem remove (h : t.Holds (c ::ₘ tracked)) : (t.removeConnection c.fd).Holds tracked := by
  have hmem : c.fd ∈ t.activeFds := h.mem_activeFds.mpr ⟨c, Multiset.mem_cons_self c tracked, rfl⟩
  have hfds : ((t.activeFds.erase c.fd : List Nat) : Multiset Nat) = tracked.map (·.fd) := by
    rw [← Multiset.coe_erase, h.fds, Multiset.map_cons, Multiset.erase_cons_head]
  have hnodup : (t.activeFds.erase c.fd).Nodup := h.nodup.erase _
  have hother : ∀ c' ∈ tracked, c'.fd ≠ c.fd := by
    intro c' hc' hfd
    have : c.fd ∈ t.activeFds.erase c.fd := by
      rw [← Multiset.mem_coe, hfds, Multiset.mem_map]
      exact ⟨c', hc', hfd⟩
    exact h.nodup.not_mem_erase this
  unfold AcceptorTables.removeConnection
  cases hip : t.fdToIp.find? c.fd with
  | none =>
    have hnot : countsIp c.clientIp = false := by
      by_contra hcon
      have := (h.addresses c.fd c.clientIp).mpr
        ⟨c, Multiset.mem_cons_self c tracked, rfl, rfl, by simpa using hcon⟩
      rw [hip] at this
      cases this
    refine ⟨hnodup, hfds, fun n ip => ?_, fun ip => ?_⟩
    · rw [h.addresses]
      constructor
      · rintro ⟨c', hc', hfd, hcip, hcounts⟩
        rcases Multiset.mem_cons.mp hc' with rfl | hc'
        · rw [hcip] at hnot
          rw [hnot] at hcounts
          cases hcounts
        · exact ⟨c', hc', hfd, hcip, hcounts⟩
      · rintro ⟨c', hc', hrest⟩
        exact ⟨c', Multiset.mem_cons_of_mem hc', hrest⟩
    · rw [h.counts]
      split
      · rename_i hcounts
        have hne : c.clientIp ≠ ip := by
          rintro rfl
          rw [hnot] at hcounts
          cases hcounts
        rw [addressed_cons_of_ne _ hne]
      · rfl
  | some ip =>
    obtain ⟨c', hc', hfd, hcip, hcounts⟩ := (h.addresses c.fd ip).mp hip
    have hc : c' = c := by
      rcases Multiset.mem_cons.mp hc' with rfl | hc'
      · rfl
      · exact absurd hfd (hother c' hc')
    subst hc
    subst hcip
    have hcount : (t.perIpConnections.find? c'.clientIp).getD 0 - 1 =
        addressed tracked c'.clientIp := by
      rw [h.getD_count hcounts, addressed_cons, if_pos rfl]
      omega
    refine ⟨hnodup, hfds, fun n ip => ?_, fun ip => ?_⟩
    · dsimp only
      rw [AssocMap.find?_erase]
      split
      · rename_i hn
        constructor
        · intro heq
          cases heq
        · rintro ⟨c'', hc'', hfd', -⟩
          exact absurd (hfd'.trans hn) (hother c'' hc'')
      · rename_i hn
        rw [h.addresses]
        constructor
        · rintro ⟨c'', hc'', hfd', hrest⟩
          rcases Multiset.mem_cons.mp hc'' with rfl | hc''
          · exact absurd hfd'.symm hn
          · exact ⟨c'', hc'', hfd', hrest⟩
        · rintro ⟨c'', hc'', hrest⟩
          exact ⟨c'', Multiset.mem_cons_of_mem hc'', hrest⟩
    · dsimp only
      rw [hcount]
      have hsame : ip ≠ c'.clientIp → t.perIpConnections.find? ip =
          positive (if countsIp ip then addressed tracked ip else 0) := by
        intro hne
        rw [h.counts, addressed_cons_of_ne _ fun heq => hne heq.symm]
      split
      · rename_i hzero
        rw [AssocMap.find?_erase]
        split
        · rename_i heq
          rw [heq, if_pos hcounts, hzero]
          rfl
        · rename_i hne
          exact hsame hne
      · rename_i hpos
        rw [AssocMap.find?_insert]
        split
        · rename_i heq
          rw [heq, if_pos hcounts, positive, if_neg hpos]
        · rename_i hne
          exact hsame hne

/-- A number that is not tracked is removed. -/
theorem remove_of_not_mem (h : t.Holds tracked) {fd : Nat} (hnot : ∀ c ∈ tracked, c.fd ≠ fd) :
    (t.removeConnection fd).Holds tracked := by
  have hip : t.fdToIp.find? fd = none := by
    cases hip : t.fdToIp.find? fd with
    | none => rfl
    | some ip =>
      obtain ⟨c, hc, hfd, -⟩ := (h.addresses fd ip).mp hip
      exact absurd hfd (hnot c hc)
  have hmem : fd ∉ t.activeFds := by
    intro hin
    obtain ⟨c, hc, hfd⟩ := h.mem_activeFds.mp hin
    exact hnot c hc hfd
  simp only [AcceptorTables.removeConnection, hip]
  rw [List.erase_of_not_mem hmem]
  exact h

end AcceptorTables.Holds

/-! ## 3. Who holds what -/

/-- The socket of an accept thread, before the map has it. -/
def AcceptPc.own : AcceptPc → Option Socket
  | .accepted c | .acl c | .perIp c | .rejected c | .tracking c | .counting c | .registering c
  | .checking c | .settingFlags c | .emplacing c => some c
  | _ => none

/-- It stands in the acceptor's tables. -/
def AcceptPc.tracked : AcceptPc → Option Socket
  | .counting c | .registering c | .checking c | .settingFlags c | .emplacing c => some c
  | _ => none

/-- It is counted among the active connections. -/
def AcceptPc.counted : AcceptPc → Option Socket
  | .registering c | .checking c | .settingFlags c | .emplacing c => some c
  | _ => none

/-- No registration has failed. -/
def AcceptPc.regular : AcceptPc → Bool
  | .unplacing _ | .refused _ | .uncounting _ | .closing _ | .untracking _ => false
  | _ => true

/-- Has it passed the check of the limit, and is not tracked yet? -/
def AcceptPc.admitted : AcceptPc → Nat
  | .acl _ | .perIp _ | .tracking _ => 1
  | _ => 0

/-- Has it passed the check of its address, and is not tracked yet? -/
def AcceptPc.admittedFrom (ip : Bytes) : AcceptPc → Nat
  | .tracking c => if c.clientIp = ip then 1 else 0
  | _ => 0

/-- The entry a holder has taken out of the map. -/
def Closer.entry : Closer → Option Socket
  | .taken c _ _ => some c
  | _ => none

/-- The reference a holder had before. -/
def Closer.handle : Closer → Option Socket
  | .watching c => some c
  | .stopping _ => none
  | .taken _ _ handle => handle

/-- The entry still stands in the tables of an acceptor. -/
def Closer.tracked (l : Listener) : Closer → Option Socket
  | .taken c .removeTcp _ => if c.listener = l then some c else none
  | .taken c .removeUnix _ => if c.listener = l ∧ l = .unix then some c else none
  | _ => none

/-- The entry is still counted. -/
def Closer.counted : Closer → Option Socket
  | .taken c .removeTcp _ | .taken c .removeUnix _ | .taken c .uncount _ => some c
  | _ => none

/-- At most one. -/
def single : Option Socket → Multiset Socket
  | none => 0
  | some c => {c}

@[simp] theorem single_none : single none = 0 := rfl

@[simp] theorem single_some (c : Socket) : single (some c) = {c} := rfl

@[simp] theorem mem_single {c : Socket} {o : Option Socket} : c ∈ single o ↔ o = some c := by
  cases o with
  | none => simp
  | some c' => simp [eq_comm]

/-- What each part of the state holds. -/
structure Portion where
  thread : AcceptPc → Option Socket := fun _ => none
  entry : Socket → Option Socket := fun _ => none
  closer : Closer → Option Socket := fun _ => none

/-- **What they hold together.** -/
def Portion.of (w : Portion) (s : ConnectionState) : Multiset Socket :=
  single (w.thread (s.threads .tcp)) + single (w.thread (s.threads .unix)) +
    (s.connections.entries.map fun e => single (w.entry e.2)).sum +
    (s.closers.map fun closer => single (w.closer closer)).sum

namespace Portion

variable (w : Portion) (s : ConnectionState)

/-- A thread goes on. -/
theorem of_setThread (l : Listener) (pc : AcceptPc) :
    w.of (s.setThread l pc) + single (w.thread (s.threads l)) =
      w.of s + single (w.thread pc) := by
  unfold Portion.of ConnectionState.setThread
  cases l with
  | tcp =>
    simp only [Function.update_self, ne_eq, reduceCtorEq, not_false_eq_true,
      Function.update_of_ne]
    abel
  | unix =>
    simp only [Function.update_self, ne_eq, reduceCtorEq, not_false_eq_true,
      Function.update_of_ne]
    abel

theorem of_setThread_eq {l : Listener} {pc : AcceptPc}
    (h : w.thread pc = w.thread (s.threads l)) : w.of (s.setThread l pc) = w.of s := by
  have := w.of_setThread s l pc
  rw [h] at this
  exact add_right_cancel this

theorem of_insert {n : Nat} {c : Socket} (h : s.connections.find? n = none) :
    w.of { s with connections := s.connections.insert n c } = w.of s + single (w.entry c) := by
  have hentries := AssocMap.entries_insert_of_not_mem (m := s.connections) (v := c)
    (AssocMap.find?_eq_none.mp h)
  unfold Portion.of
  simp only [hentries, List.map_append, List.map_singleton, List.sum_append, List.sum_singleton]
  abel

theorem of_erase {n : Nat} {c : Socket} (h : s.connections.find? n = some c) :
    w.of { s with connections := s.connections.erase n } + single (w.entry c) = w.of s := by
  have hperm := AssocMap.entries_perm_erase h
  have hsum := (hperm.map fun e => single (w.entry e.2)).sum_eq
  unfold Portion.of
  simp only [List.map_cons, List.sum_cons] at hsum
  simp only [hsum]
  abel

theorem of_cons (closer : Closer) :
    w.of { s with closers := closer :: s.closers } = w.of s + single (w.closer closer) := by
  unfold Portion.of
  simp only [List.map_cons, List.sum_cons]
  abel

theorem of_eraseIdx {i : Nat} {closer : Closer} (h : s.closers[i]? = some closer) :
    w.of { s with closers := s.closers.eraseIdx i } + single (w.closer closer) = w.of s := by
  obtain ⟨hi, rfl⟩ := List.getElem?_eq_some_iff.mp h
  have hperm := List.getElem_cons_eraseIdx_perm hi
  have hsum := (hperm.map fun closer => single (w.closer closer)).sum_eq
  simp only [List.map_cons, List.sum_cons] at hsum
  unfold Portion.of
  simp only [← hsum]
  abel

end Portion

namespace ConnectionState

/-- Sockets of an accept thread. -/
def own : Portion := { thread := AcceptPc.own }

/-- Of an accept thread, in the map, or taken out of it. -/
def core : Portion := { thread := AcceptPc.own, entry := some, closer := Closer.entry }

/-- In the map, or taken out of it. -/
def stored : Portion := { entry := some, closer := Closer.entry }

/-- Other references. -/
def handles : Portion := { closer := Closer.handle }

/-- What is in the tables of an acceptor. -/
def tracked (l : Listener) : Portion where
  thread pc := pc.tracked.filter fun c => c.listener = l
  entry c := if c.listener = l then some c else none
  closer := Closer.tracked l

/-- What is counted. -/
def counted : Portion := { thread := AcceptPc.counted, entry := some, closer := Closer.counted }

/-- What is open. -/
def held (s : ConnectionState) : Set Socket := { c | c ∈ core.of s ∨ c ∈ handles.of s }

end ConnectionState

/-- **An acceptor is in order**: its tables are right for what is tracked, and the limits hold,
    with the socket it has admitted and not tracked yet. -/
structure AcceptorOk (limits : ConnectionLimits) (l : Listener) (t : AcceptorTables)
    (tracked : Multiset Socket) (pc : AcceptPc) : Prop where
  regular : pc.regular = true
  listener : ∀ c, pc.own = some c → c.listener = l
  tables : t.Holds tracked
  room : t.activeFds.length + pc.admitted ≤ limits.maxConnections
  ipRoom : ∀ ip, 0 < limits.maxConnectionsPerIp → countsIp ip = true →
    ((addressed tracked ip + pc.admittedFrom ip : Nat) : Int) ≤ limits.maxConnectionsPerIp

namespace ConnectionState

/-- **The invariant** of the runs in which no registration fails. -/
structure Inv (limits : ConnectionLimits) (s : ConnectionState) : Prop where
  acceptors : ∀ l, AcceptorOk limits l (s.tables l) ((tracked l).of s) (s.threads l)
  entries : ∀ n c, s.connections.find? n = some c → c.fd = n
  nodup : (core.of s).Nodup
  apart : ∀ c ∈ own.of s, c ∉ handles.of s
  kernel : s.kernel.Holds s.held
  counts : s.activeConnections = (counted.of s).card % 2 ^ 64

end ConnectionState

/-! ### Membership -/

theorem mem_sum_single {α : Type} {f : α → Option Socket} {l : List α} {c : Socket} :
    c ∈ (l.map fun a => single (f a)).sum ↔ ∃ a ∈ l, f a = some c := by
  induction l with
  | nil => simp
  | cons a l ih => simp [ih]

theorem Portion.mem_of {w : Portion} {s : ConnectionState} {c : Socket} :
    c ∈ w.of s ↔ (∃ l, w.thread (s.threads l) = some c) ∨
      (∃ n c', s.connections.find? n = some c' ∧ w.entry c' = some c) ∨
      ∃ closer ∈ s.closers, w.closer closer = some c := by
  unfold Portion.of
  simp only [Multiset.mem_add, mem_single, mem_sum_single]
  constructor
  · rintro (((h | h) | ⟨e, he, h⟩) | h)
    · exact .inl ⟨.tcp, h⟩
    · exact .inl ⟨.unix, h⟩
    · exact .inr (.inl ⟨e.1, e.2, AssocMap.mem_entries.mp he, h⟩)
    · exact .inr (.inr h)
  · rintro (⟨l, h⟩ | ⟨n, c', he, h⟩ | h)
    · cases l with
      | tcp => exact .inl (.inl (.inl h))
      | unix => exact .inl (.inl (.inr h))
    · exact .inl (.inr ⟨(n, c'), AssocMap.mem_entries.mpr he, h⟩)
    · exact .inr h

namespace ConnectionState

variable {limits : ConnectionLimits} {s : ConnectionState} {c : Socket} {l : Listener}

theorem mem_held : c ∈ s.held ↔ c ∈ core.of s ∨ c ∈ handles.of s := Iff.rfl

theorem mem_core : c ∈ core.of s ↔ (∃ l, (s.threads l).own = some c) ∨
    (∃ n, s.connections.find? n = some c) ∨ ∃ closer ∈ s.closers, closer.entry = some c := by
  rw [Portion.mem_of]
  simp only [core, Option.some.injEq, exists_eq_right]

theorem core_eq (s : ConnectionState) : core.of s = own.of s + stored.of s := by
  simp only [Portion.of, core, own, stored, single_none, add_zero, zero_add, List.map_const',
    List.sum_replicate, nsmul_zero]
  abel

theorem mem_stored : c ∈ stored.of s ↔
    (∃ n, s.connections.find? n = some c) ∨ ∃ closer ∈ s.closers, closer.entry = some c := by
  rw [Portion.mem_of]
  simp [stored]

theorem mem_handles : c ∈ handles.of s ↔ ∃ closer ∈ s.closers, closer.handle = some c := by
  rw [Portion.mem_of]
  simp [handles]

theorem mem_own : c ∈ own.of s ↔ ∃ l, (s.threads l).own = some c := by
  rw [Portion.mem_of]
  simp [own]

theorem mem_tracked : c ∈ (tracked l).of s ↔
    (∃ l', (s.threads l').tracked = some c ∧ c.listener = l) ∨
    (∃ n, s.connections.find? n = some c ∧ c.listener = l) ∨
    ∃ closer ∈ s.closers, closer.tracked l = some c := by
  rw [Portion.mem_of]
  simp only [tracked, Option.filter_eq_some_iff, decide_eq_true_eq, Option.ite_none_right_eq_some,
    Option.some.injEq]
  constructor
  · rintro (h | ⟨n, c', hfind, hl, rfl⟩ | h)
    · exact .inl h
    · exact .inr (.inl ⟨n, hfind, hl⟩)
    · exact .inr (.inr h)
  · rintro (h | ⟨n, hfind, hl⟩ | h)
    · exact .inl h
    · exact .inr (.inl ⟨n, c, hfind, hl, rfl⟩)
    · exact .inr (.inr h)

theorem own_of_tracked {pc : AcceptPc} (h : pc.tracked = some c) : pc.own = some c := by
  cases pc <;> simp_all [AcceptPc.tracked, AcceptPc.own]

theorem entry_of_tracked {closer : Closer} (h : closer.tracked l = some c) :
    closer.entry = some c ∧ c.listener = l := by
  cases closer with
  | watching c' => cases h
  | stopping fd => cases h
  | taken c' stage handle =>
    cases stage with
    | removeTcp =>
      simp only [Closer.tracked, Option.ite_none_right_eq_some, Option.some.injEq] at h
      obtain ⟨hl, rfl⟩ := h
      exact ⟨rfl, hl⟩
    | removeUnix =>
      simp only [Closer.tracked, Option.ite_none_right_eq_some, Option.some.injEq] at h
      obtain ⟨⟨hl, -⟩, rfl⟩ := h
      exact ⟨rfl, hl⟩
    | uncount => cases h
    | release => cases h

/-- What is tracked is held, for its own acceptor. -/
theorem core_of_tracked (h : c ∈ (tracked l).of s) : c ∈ core.of s ∧ c.listener = l := by
  rw [mem_core]
  rcases mem_tracked.1 h with ⟨l', hpc, hl⟩ | ⟨n, hfind, hl⟩ | ⟨closer, hin, htr⟩
  · exact ⟨.inl ⟨l', own_of_tracked hpc⟩, hl⟩
  · exact ⟨.inr (.inl ⟨n, hfind⟩), hl⟩
  · obtain ⟨hentry, hl⟩ := entry_of_tracked htr
    exact ⟨.inr (.inr ⟨closer, hin, hentry⟩), hl⟩

/-- A socket that is no thread's is held exactly if there is a reference to its object. -/
theorem mem_objects_iff (hreg : ∀ l, (s.threads l).regular = true) (hown : c ∉ own.of s) :
    c ∈ s.objects ↔ c ∈ s.held := by
  have hthread : ∀ l, (s.threads l).object ≠ some c := by
    intro l hobj
    refine hown (mem_own.2 ⟨l, ?_⟩)
    have := hreg l
    cases hpc : s.threads l <;> simp_all [AcceptPc.object, AcceptPc.own, AcceptPc.regular]
  have hcloser : ∀ closer : Closer, c ∈ closer.objects ↔
      closer.entry = some c ∨ closer.handle = some c := by
    intro closer
    cases closer with
    | watching c' => simp [Closer.objects, Closer.entry, Closer.handle, eq_comm]
    | stopping fd => simp [Closer.objects, Closer.entry, Closer.handle]
    | taken c' stage handle => simp [Closer.objects, Closer.entry, Closer.handle, eq_comm]
  rw [mem_held, mem_core, mem_handles]
  simp only [objects, List.mem_append, Option.mem_toList, hthread, false_or, List.mem_map,
    List.mem_flatMap, hcloser]
  constructor
  · rintro (⟨e, he, rfl⟩ | ⟨closer, hin, h | h⟩)
    · exact .inl (.inr (.inl ⟨e.1, AssocMap.mem_entries.mp he⟩))
    · exact .inl (.inr (.inr ⟨closer, hin, h⟩))
    · exact .inr ⟨closer, hin, h⟩
  · rintro ((⟨l, h⟩ | ⟨n, h⟩ | ⟨closer, hin, h⟩) | ⟨closer, hin, h⟩)
    · exact absurd (mem_own.2 ⟨l, h⟩) hown
    · exact .inl ⟨(n, c), AssocMap.mem_entries.mpr h, rfl⟩
    · exact .inr ⟨closer, hin, .inl h⟩
    · exact .inr ⟨closer, hin, .inr h⟩

/-! ### Letting go -/

/-- The destructor changes the kernel's table only. -/
theorem release_eq (s : ConnectionState) (c : Socket) :
    s.release c = { s with kernel := (s.release c).kernel } := by
  unfold release
  split <;> rfl

/-- **The last reference** closes the descriptor, and no other does. -/
theorem holds_release (hreg : ∀ l, (s.threads l).regular = true) (hown : c ∉ own.of s)
    (h : s.kernel.Holds (insert c s.held)) : (s.release c).kernel.Holds s.held := by
  unfold release
  split
  · rename_i hin
    rwa [Set.insert_eq_of_mem ((mem_objects_iff hreg hown).mp hin)] at h
  · rename_i hnot
    have hclosed := h.close (Set.mem_insert c s.held)
    have hout : c ∉ s.held := fun hin => hnot ((mem_objects_iff hreg hown).mpr hin)
    rwa [Set.insert_sdiff_of_mem _ (Set.mem_singleton c), Set.sdiff_singleton_eq_self hout]
      at hclosed

end ConnectionState

/-! ## 4. The accept threads -/

namespace ConnectionState

variable {limits : ConnectionLimits} {s : ConnectionState} {c : Socket} {l : Listener}

theorem threads_setThread (s : ConnectionState) (l l' : Listener) (pc : AcceptPc) :
    (s.setThread l pc).threads l' = if l' = l then pc else s.threads l' := by
  unfold setThread
  by_cases h : l' = l
  · subst h
    simp
  · simp [h]

theorem tables_setTables (s : ConnectionState) (l l' : Listener) (t : AcceptorTables) :
    (s.setTables l t).tables l' = if l' = l then t else s.tables l' := by
  unfold setTables
  by_cases h : l' = l
  · subst h
    simp
  · simp [h]

/-- The acceptors are in order when one thread goes on and nothing else is tracked. -/
theorem Inv.acceptors_setThread (h : Inv limits s) {s' : ConnectionState} {pc : AcceptPc}
    (htables : s'.tables = s.tables) (htracked : ∀ l', (tracked l').of s' = (tracked l').of s)
    (hthreads : s'.threads = (s.setThread l pc).threads)
    (hpc : AcceptorOk limits l (s.tables l) ((tracked l).of s) pc) (l' : Listener) :
    AcceptorOk limits l' (s'.tables l') ((tracked l').of s') (s'.threads l') := by
  rw [htables, htracked, hthreads, threads_setThread]
  split
  · rename_i hl
    rw [hl]
    exact hpc
  · exact h.acceptors l'

/-- A thread goes on with what it has. -/
theorem Inv.setThread (h : Inv limits s) (pc : AcceptPc) (hown : pc.own = (s.threads l).own)
    (htracked : pc.tracked = (s.threads l).tracked)
    (hcounted : pc.counted = (s.threads l).counted)
    (hpc : AcceptorOk limits l (s.tables l) ((tracked l).of s) pc) :
    Inv limits (s.setThread l pc) := by
  have hcore : core.of (s.setThread l pc) = core.of s := core.of_setThread_eq s hown
  have hhandles : handles.of (s.setThread l pc) = handles.of s := handles.of_setThread_eq s rfl
  have htr : ∀ l', (tracked l').of (s.setThread l pc) = (tracked l').of s := fun l' =>
    (tracked l').of_setThread_eq s (by simp only [tracked, htracked])
  refine ⟨h.acceptors_setThread rfl htr rfl hpc, h.entries, ?_, ?_, ?_, ?_⟩
  · rw [hcore]
    exact h.nodup
  · rw [own.of_setThread_eq s hown, hhandles]
    exact h.apart
  · rw [held, hcore, hhandles]
    exact h.kernel
  · rw [counted.of_setThread_eq s hcounted]
    exact h.counts

/-- `lifecycle_mutex_` and `running_` are not counted. -/
theorem Inv.setLifecycle (h : Inv limits s) (lifecycle : LifecycleLock) (running : Bool) :
    Inv limits { s with lifecycle := lifecycle, running := running } :=
  ⟨h.acceptors, h.entries, h.nodup, h.apart, h.kernel, h.counts⟩

/-- **A new connection.** -/
theorem Inv.accept (h : Inv limits s) (hidle : s.threads l = .idle) (hl : c.listener = l)
    (hfree : s.kernel.opened.find? c.fd = none) (hserial : c.serial = s.kernel.accepts) :
    Inv limits ({ s with kernel := s.kernel.accept c.fd }.setThread l (.accepted c)) := by
  set s₀ : ConnectionState := { s with kernel := s.kernel.accept c.fd } with hs₀
  have hidle₀ : s₀.threads l = .idle := hidle
  have hsame : ∀ w : Portion, w.of s₀ = w.of s := fun _ => rfl
  have hfresh : c ∉ s.held := fun hc => absurd (h.kernel.serials c hc) (by omega)
  have hcore : core.of (s₀.setThread l (.accepted c)) = core.of s + {c} := by
    have := core.of_setThread s₀ l (.accepted c)
    rw [hidle₀] at this
    simpa [core, AcceptPc.own, hsame] using this
  have hown : own.of (s₀.setThread l (.accepted c)) = own.of s + {c} := by
    have := own.of_setThread s₀ l (.accepted c)
    rw [hidle₀] at this
    simpa [own, AcceptPc.own, hsame] using this
  have hhandles : handles.of (s₀.setThread l (.accepted c)) = handles.of s :=
    handles.of_setThread_eq s₀ rfl
  have htr : ∀ l', (tracked l').of (s₀.setThread l (.accepted c)) = (tracked l').of s :=
    fun l' => (tracked l').of_setThread_eq s₀ (by rw [hidle₀]; rfl)
  have hok := h.acceptors l
  rw [hidle] at hok
  refine ⟨h.acceptors_setThread rfl htr rfl ⟨rfl, ?_, hok.tables, hok.room, hok.ipRoom⟩, h.entries,
    ?_, ?_, ?_, ?_⟩
  · intro c' hc'
    cases hc'
    exact hl
  · rw [hcore, Multiset.nodup_add]
    refine ⟨h.nodup, Multiset.nodup_singleton c, ?_⟩
    rw [Multiset.disjoint_singleton]
    exact fun hc => hfresh (.inl hc)
  · rw [hown, hhandles]
    intro c' hc'
    rcases Multiset.mem_add.mp hc' with hc' | hc'
    · exact h.apart c' hc'
    · rw [Multiset.mem_singleton.mp hc']
      exact fun hc => hfresh (.inr hc)
  · have hheld : (s₀.setThread l (.accepted c)).held = insert c s.held := by
      ext c'
      simp only [mem_held, hcore, hhandles, Multiset.mem_add, Multiset.mem_singleton,
        Set.mem_insert_iff]
      tauto
    rw [hheld]
    exact h.kernel.accept hfree hserial
  · rw [counted.of_setThread_eq s₀ (by rw [hidle₀]; rfl)]
    exact h.counts

/-- **A connection is rejected** and closed. -/
theorem Inv.reject (h : Inv limits s) (hpc : s.threads l = .rejected c) :
    Inv limits ((s.close c).setThread l .idle) := by
  have hpc₀ : (s.close c).threads l = .rejected c := hpc
  have hsame : ∀ w : Portion, w.of (s.close c) = w.of s := fun _ => rfl
  have hcore : core.of ((s.close c).setThread l .idle) + {c} = core.of s := by
    have := core.of_setThread (s.close c) l .idle
    rw [hsame, hpc₀] at this
    simpa [core, AcceptPc.own] using this
  have hown : own.of ((s.close c).setThread l .idle) + {c} = own.of s := by
    have := own.of_setThread (s.close c) l .idle
    rw [hsame, hpc₀] at this
    simpa [own, AcceptPc.own] using this
  have hhandles : handles.of ((s.close c).setThread l .idle) = handles.of s :=
    handles.of_setThread_eq (s.close c) rfl
  have htr : ∀ l', (tracked l').of ((s.close c).setThread l .idle) = (tracked l').of s :=
    fun l' => (tracked l').of_setThread_eq (s.close c) (by rw [hpc₀]; rfl)
  have hmine : c ∈ own.of s := mem_own.2 ⟨l, by rw [hpc]; rfl⟩
  have hin : c ∈ s.held := .inl (mem_core.2 (.inl ⟨l, by rw [hpc]; rfl⟩))
  have hnodup := h.nodup
  rw [← hcore, Multiset.nodup_add, Multiset.disjoint_singleton] at hnodup
  have hok := h.acceptors l
  rw [hpc] at hok
  refine ⟨h.acceptors_setThread rfl htr rfl ⟨rfl, fun c' hc' => by (cases hc'), hok.tables,
    hok.room, hok.ipRoom⟩, h.entries, hnodup.1, ?_, ?_, ?_⟩
  · rw [hhandles]
    exact fun c' hc' => h.apart c' (hown ▸ Multiset.mem_add.mpr (.inl hc'))
  · have hheld : ((s.close c).setThread l .idle).held = s.held \ {c} := by
      ext c'
      simp only [mem_held, ← hcore, hhandles, Multiset.mem_add, Multiset.mem_singleton,
        Set.mem_sdiff, Set.mem_singleton_iff]
      constructor
      · rintro (hc' | hc')
        · exact ⟨.inl (.inl hc'), fun heq => hnodup.2.2 (heq ▸ hc')⟩
        · exact ⟨.inr hc', fun heq => h.apart c hmine (heq ▸ hc')⟩
      · rintro ⟨(hc' | hc') | hc', hne⟩
        · exact .inl hc'
        · exact absurd hc' hne
        · exact .inr hc'
    rw [hheld]
    exact h.kernel.close hin
  · rw [counted.of_setThread_eq (s.close c) (by rw [hpc₀]; rfl)]
    exact h.counts

/-- What a thread has, and does not track yet, is not tracked at all. -/
theorem Inv.not_tracked (h : Inv limits s) (hown : (s.threads l).own = some c)
    (htracked : (s.threads l).tracked = none) (l' : Listener) : c ∉ (tracked l').of s := by
  have hnodup := h.nodup
  rw [core_eq, Multiset.nodup_add] at hnodup
  have hnot : c ∉ stored.of s :=
    Multiset.disjoint_left.mp hnodup.2.2 (mem_own.2 ⟨l, hown⟩)
  intro hc
  rcases mem_tracked.1 hc with ⟨l'', hpc, -⟩ | ⟨n, hfind, -⟩ | ⟨closer, hin, hcl⟩
  · have hl'' := (h.acceptors l'').listener c (own_of_tracked hpc)
    rw [(h.acceptors l).listener c hown] at hl''
    rw [← hl'', htracked] at hpc
    cases hpc
  · exact hnot (mem_stored.2 (.inl ⟨n, hfind⟩))
  · exact hnot (mem_stored.2 (.inr ⟨closer, hin, (entry_of_tracked hcl).1⟩))

theorem tracked_thread (l : Listener) (pc : AcceptPc) (h : pc.tracked = some c) :
    (tracked l).thread pc = if c.listener = l then some c else none := by
  simp [tracked, h, Option.filter]

/-- **A connection is tracked.** -/
theorem Inv.track (h : Inv limits s) (hpc : s.threads l = .tracking c) :
    Inv limits ((s.setTables l ((s.tables l).track c)).setThread l (.counting c)) := by
  set s₀ := s.setTables l ((s.tables l).track c) with hs₀
  have hpc₀ : s₀.threads l = .tracking c := hpc
  have hsame : ∀ w : Portion, w.of s₀ = w.of s := fun _ => rfl
  have hok := h.acceptors l
  have hnot := h.not_tracked (l := l) (c := c) (by rw [hpc]; rfl) (by rw [hpc]; rfl) l
  rw [hpc] at hok
  have hl : c.listener = l := hok.listener c rfl
  have hcore : core.of (s₀.setThread l (.counting c)) = core.of s :=
    core.of_setThread_eq s₀ (by rw [hpc₀]; rfl)
  have hhandles : handles.of (s₀.setThread l (.counting c)) = handles.of s :=
    handles.of_setThread_eq s₀ rfl
  have hmem : c ∈ core.of s := mem_core.2 (.inl ⟨l, by rw [hpc]; rfl⟩)
  have htr : ∀ l', (tracked l').of (s₀.setThread l (.counting c)) =
      (tracked l').of s + single (if l = l' then some c else none) := by
    intro l'
    have := (tracked l').of_setThread s₀ l (.counting c)
    rw [hpc₀, hsame, tracked_thread l' (.counting c) rfl, hl] at this
    exact (add_zero _).symm.trans this
  -- a tracked socket under its number would be itself
  have hnew : c.fd ∉ (s.tables l).activeFds := by
    intro hin
    obtain ⟨c', hc', hfd⟩ := hok.tables.mem_activeFds.mp hin
    have heq := h.kernel.eq_of_fd (.inl (core_of_tracked hc').1) (.inl hmem) hfd
    exact hnot (heq ▸ hc')
  refine ⟨fun l' => ?_, h.entries, ?_, ?_, ?_, ?_⟩
  · rw [threads_setThread, htr]
    show AcceptorOk limits l' ((s.setTables l ((s.tables l).track c)).tables l') _ _
    rw [tables_setTables]
    by_cases hl' : l' = l
    · subst hl'
      simp only [if_true, single_some]
      rw [add_comm, Multiset.singleton_add]
      have htables := hok.tables.track hnew
      refine ⟨rfl, fun c' hc' => by (cases hc'; exact hl), htables, ?_, fun ip hlim hcounts => ?_⟩
      · have hroom := hok.room
        rw [hok.tables.length_activeFds] at hroom
        rw [htables.length_activeFds, Multiset.card_cons]
        exact hroom
      · have hip := hok.ipRoom ip hlim hcounts
        rw [addressed_cons]
        exact hip
    · rw [if_neg hl', if_neg hl', if_neg (fun heq => hl' heq.symm), single_none, add_zero]
      exact h.acceptors l'
  · rw [hcore]
    exact h.nodup
  · rw [own.of_setThread_eq s₀ (by rw [hpc₀]; rfl), hhandles]
    exact h.apart
  · rw [held, hcore, hhandles]
    exact h.kernel
  · rw [counted.of_setThread_eq s₀ (by rw [hpc₀]; rfl)]
    exact h.counts

/-- **A connection is counted.** -/
theorem Inv.count (h : Inv limits s) (hpc : s.threads l = .counting c) :
    Inv limits (s.count.setThread l (.registering c)) := by
  have hpc₀ : s.count.threads l = .counting c := hpc
  have hcore : core.of (s.count.setThread l (.registering c)) = core.of s :=
    core.of_setThread_eq s.count (by rw [hpc₀]; rfl)
  have hhandles : handles.of (s.count.setThread l (.registering c)) = handles.of s :=
    handles.of_setThread_eq s.count rfl
  have htr : ∀ l', (tracked l').of (s.count.setThread l (.registering c)) = (tracked l').of s :=
    fun l' => (tracked l').of_setThread_eq s.count (by rw [hpc₀]; rfl)
  have hok := h.acceptors l
  rw [hpc] at hok
  refine ⟨h.acceptors_setThread rfl htr rfl ⟨rfl, hok.listener, hok.tables, hok.room, hok.ipRoom⟩,
    h.entries, ?_, ?_, ?_, ?_⟩
  · rw [hcore]
    exact h.nodup
  · rw [own.of_setThread_eq s.count (by rw [hpc₀]; rfl), hhandles]
    exact h.apart
  · rw [held, hcore, hhandles]
    exact h.kernel
  · have hcounted : counted.of (s.count.setThread l (.registering c)) = counted.of s + {c} := by
      have := counted.of_setThread s.count l (.registering c)
      rw [hpc₀] at this
      exact (add_zero _).symm.trans this
    rw [hcounted, Multiset.card_add, Multiset.card_singleton]
    show (s.activeConnections + 1) % 2 ^ 64 = _
    rw [h.counts, Nat.mod_add_mod]

/-- **The map takes a connection** from a thread. -/
theorem Inv.emplace (h : Inv limits s) (hpc : s.threads l = .emplacing c)
    (hnew : s.connections.find? c.fd = none) :
    Inv limits ({ s with connections := s.connections.insert c.fd c }.setThread l (.adding c)) := by
  set s₀ : ConnectionState := { s with connections := s.connections.insert c.fd c } with hs₀
  have hpc₀ : s₀.threads l = .emplacing c := hpc
  have hok := h.acceptors l
  rw [hpc] at hok
  have hl : c.listener = l := hok.listener c rfl
  -- what leaves the thread enters the map
  have hmoves : ∀ w : Portion, w.thread (.emplacing c) = w.entry c → w.thread (.adding c) = none →
      w.of (s₀.setThread l (.adding c)) = w.of s := by
    intro w hentry hnone
    have hthread := w.of_setThread s₀ l (.adding c)
    have hinsert := w.of_insert s (c := c) hnew
    rw [hpc₀, hnone, single_none, add_zero, hentry, hinsert] at hthread
    exact add_right_cancel hthread
  have hcore : core.of (s₀.setThread l (.adding c)) = core.of s := hmoves core rfl rfl
  have hhandles : handles.of (s₀.setThread l (.adding c)) = handles.of s :=
    hmoves handles rfl rfl
  have htr : ∀ l', (tracked l').of (s₀.setThread l (.adding c)) = (tracked l').of s :=
    fun l' => hmoves (tracked l') (tracked_thread l' (.emplacing c) rfl) rfl
  have hown : own.of (s₀.setThread l (.adding c)) + {c} = own.of s := by
    have hthread := own.of_setThread s₀ l (.adding c)
    have hinsert := own.of_insert s (c := c) hnew
    rw [hpc₀, hinsert] at hthread
    simpa [own, AcceptPc.own] using hthread
  refine ⟨h.acceptors_setThread rfl htr rfl ⟨rfl, fun c' hc' => by (cases hc'), hok.tables,
    hok.room, hok.ipRoom⟩, fun n c' hfind => ?_, ?_, ?_, ?_, ?_⟩
  · have hfind' : (s.connections.insert c.fd c).find? n = some c' := hfind
    rw [AssocMap.find?_insert] at hfind'
    split at hfind'
    · rename_i hn
      cases hfind'
      exact hn.symm
    · exact h.entries n c' hfind'
  · rw [hcore]
    exact h.nodup
  · rw [hhandles]
    exact fun c' hc' => h.apart c' (hown ▸ Multiset.mem_add.mpr (.inl hc'))
  · rw [held, hcore, hhandles]
    exact h.kernel
  · rw [hmoves counted rfl rfl]
    exact h.counts

end ConnectionState

/-! ## 5. The holders -/

theorem Portion.of_swap (w : Portion) {s s' : ConnectionState} {i : Nat} {closer closer' : Closer}
    (hthreads : s'.threads = s.threads) (hconnections : s'.connections = s.connections)
    (hi : s.closers[i]? = some closer) (hclosers : s'.closers = closer' :: s.closers.eraseIdx i) :
    w.of s' + single (w.closer closer) = w.of s + single (w.closer closer') := by
  have hcons := w.of_cons { s with closers := s.closers.eraseIdx i } closer'
  have hsame : w.of s' = w.of { s with closers := closer' :: s.closers.eraseIdx i } := by
    unfold Portion.of
    rw [hthreads, hconnections, hclosers]
  rw [hsame, hcons, ← w.of_eraseIdx s hi]
  abel

theorem Portion.of_swap_eq (w : Portion) {s s' : ConnectionState} {i : Nat}
    {closer closer' : Closer} (hthreads : s'.threads = s.threads)
    (hconnections : s'.connections = s.connections) (hi : s.closers[i]? = some closer)
    (hclosers : s'.closers = closer' :: s.closers.eraseIdx i)
    (h : w.closer closer' = w.closer closer) : w.of s' = w.of s := by
  have := w.of_swap hthreads hconnections hi hclosers
  rw [h] at this
  exact add_right_cancel this

namespace ConnectionState

variable {limits : ConnectionLimits} {s s' : ConnectionState} {c : Socket} {l : Listener} {i : Nat}

/-- What is in the map, or taken out of it, is no thread's. -/
theorem Inv.stored_apart (h : Inv limits s) (hc : c ∈ stored.of s) : c ∈ s.held ∧ c ∉ own.of s := by
  have hnodup := h.nodup
  rw [core_eq, Multiset.nodup_add] at hnodup
  refine ⟨.inl ?_, fun hown => Multiset.disjoint_left.mp hnodup.2.2 hown hc⟩
  rw [core_eq]
  exact Multiset.mem_add.mpr (.inr hc)

theorem Inv.handle_apart (h : Inv limits s) (hc : c ∈ handles.of s) :
    c ∈ s.held ∧ c ∉ own.of s :=
  ⟨.inr hc, fun hown => h.apart c hown hc⟩

/-- The same is held, tracked and counted. -/
theorem Inv.of_same (h : Inv limits s) (hkernel : s'.kernel = s.kernel)
    (htables : s'.tables = s.tables) (hthreads : s'.threads = s.threads)
    (hcount : s'.activeConnections = s.activeConnections)
    (hentries : ∀ n c, s'.connections.find? n = some c → c.fd = n)
    (hsame : core.of s' = core.of s ∧ handles.of s' = handles.of s ∧ own.of s' = own.of s ∧
      counted.of s' = counted.of s ∧ ∀ l, (tracked l).of s' = (tracked l).of s) :
    Inv limits s' := by
  obtain ⟨hcore, hhandles, hown, hcounted, htracked⟩ := hsame
  refine ⟨fun l => ?_, hentries, ?_, ?_, ?_, ?_⟩
  · rw [htables, htracked, hthreads]
    exact h.acceptors l
  · rw [hcore]
    exact h.nodup
  · rw [hown, hhandles]
    exact h.apart
  · rw [hkernel, held, hcore, hhandles]
    exact h.kernel
  · rw [hcount, hcounted]
    exact h.counts

/-- One more reference. -/
theorem Inv.watch (h : Inv limits s) (hheld : c ∈ s.held) (hown : c ∉ own.of s) :
    Inv limits { s with closers := .watching c :: s.closers } := by
  have hsame : ∀ w : Portion, w.closer (.watching c) = none →
      w.of { s with closers := .watching c :: s.closers } = w.of s := by
    intro w hw
    rw [w.of_cons, hw]
    exact add_zero _
  have hhandles : handles.of { s with closers := .watching c :: s.closers } =
      handles.of s + {c} := handles.of_cons s (.watching c)
  refine ⟨fun l => ?_, h.entries, ?_, ?_, ?_, ?_⟩
  · rw [hsame (tracked l) rfl]
    exact h.acceptors l
  · rw [hsame core rfl]
    exact h.nodup
  · rw [hsame own rfl, hhandles]
    intro c' hc' hin
    rcases Multiset.mem_add.mp hin with hin | hin
    · exact h.apart c' hc' hin
    · exact hown (Multiset.mem_singleton.mp hin ▸ hc')
  · have : held { s with closers := .watching c :: s.closers } = s.held := by
      ext c'
      simp only [mem_held, hsame core rfl, hhandles, Multiset.mem_add, Multiset.mem_singleton]
      constructor
      · rintro (hc' | hc' | hc')
        · exact .inl hc'
        · exact .inr hc'
        · exact hc' ▸ hheld
      · rintro (hc' | hc')
        · exact .inl hc'
        · exact .inr (.inl hc')
    rw [this]
    exact h.kernel
  · rw [hsame counted rfl]
    exact h.counts

/-- **A reference goes**: the state without it, and then the destructor. -/
theorem Inv.letGo (h : Inv limits s) (hthreads : s'.threads = s.threads)
    (htables : s'.tables = s.tables) (hconnections : s'.connections = s.connections)
    (hkernel : s'.kernel = s.kernel) (hcount : s'.activeConnections = s.activeConnections)
    (hown : own.of s' = own.of s) (hcounted : counted.of s' = counted.of s)
    (htracked : ∀ l, (tracked l).of s' = (tracked l).of s) (hcore : core.of s' ≤ core.of s)
    (hhandles : handles.of s' ≤ handles.of s) (hc : c ∉ own.of s)
    (hheld : s.held = insert c s'.held) : Inv limits (s'.release c) := by
  have hsame : ∀ w : Portion, w.of (s'.release c) = w.of s' := by
    intro w
    rw [release_eq]
    rfl
  have hreg : ∀ l, (s'.threads l).regular = true := by
    intro l
    rw [hthreads]
    exact (h.acceptors l).regular
  refine ⟨fun l => ?_, ?_, ?_, ?_, ?_, ?_⟩
  · rw [hsame, htracked, release_eq]
    dsimp only
    rw [htables, hthreads]
    exact h.acceptors l
  · rw [release_eq]
    dsimp only
    rw [hconnections]
    exact h.entries
  · rw [hsame]
    exact Multiset.nodup_of_le hcore h.nodup
  · rw [hsame, hsame, hown]
    exact fun c' hc' hin => h.apart c' hc' (Multiset.mem_of_le hhandles hin)
  · have hrel : (s'.release c).held = s'.held := by
      rw [held, hsame, hsame]
      rfl
    rw [hrel]
    refine holds_release hreg (hown ▸ hc) ?_
    rw [hkernel, ← hheld]
    exact h.kernel
  · rw [hsame, hcounted, release_eq]
    dsimp only
    rw [hcount]
    exact h.counts

/-- A holder lets go of its own reference. -/
theorem Inv.drop (h : Inv limits s) (hi : s.closers[i]? = some (.watching c)) :
    Inv limits ({ s with closers := s.closers.eraseIdx i }.release c) := by
  have hof : ∀ w : Portion, w.of { s with closers := s.closers.eraseIdx i } +
      single (w.closer (.watching c)) = w.of s := fun w => w.of_eraseIdx s hi
  have hcore : core.of { s with closers := s.closers.eraseIdx i } = core.of s :=
    (add_zero _).symm.trans (hof core)
  have hhandles : handles.of { s with closers := s.closers.eraseIdx i } + {c} = handles.of s :=
    hof handles
  have hin : c ∈ handles.of s := by
    rw [← hhandles]
    exact Multiset.mem_add.mpr (.inr (Multiset.mem_singleton_self c))
  refine h.letGo rfl rfl rfl rfl rfl ((add_zero _).symm.trans (hof own))
    ((add_zero _).symm.trans (hof counted)) (fun l => (add_zero _).symm.trans (hof (tracked l)))
    hcore.le ?_ (h.handle_apart hin).2 ?_
  · rw [← hhandles]
    exact Multiset.le_add_right _ _
  · ext c'
    simp only [mem_held, Set.mem_insert_iff, hcore, ← hhandles, Multiset.mem_add,
      Multiset.mem_singleton]
    tauto

/-- `Unregister` lets go of the reference of the entry. -/
theorem Inv.releaseEntry (h : Inv limits s) {handle : Option Socket}
    (hi : s.closers[i]? = some (.taken c .release handle)) :
    Inv limits ({ s with
      closers := handle.toList.map Closer.watching ++ s.closers.eraseIdx i }.release c) := by
  have hof : ∀ w : Portion, w.of { s with
        closers := handle.toList.map Closer.watching ++ s.closers.eraseIdx i } +
      single (w.closer (.taken c .release handle)) =
        w.of s + single (handle.bind fun c' => w.closer (.watching c')) := by
    intro w
    cases handle with
    | none => exact (w.of_eraseIdx s hi).trans (add_zero _).symm
    | some c' => exact w.of_swap rfl rfl hi rfl
  have hsame : ∀ w : Portion, (∀ c', w.closer (.watching c') = none) →
      w.closer (.taken c .release handle) = none → w.of { s with
        closers := handle.toList.map Closer.watching ++ s.closers.eraseIdx i } = w.of s := by
    intro w hwatching htaken
    have := hof w
    cases handle with
    | none => simpa [htaken] using this
    | some c' => simpa [htaken, hwatching] using this
  have hcore : core.of { s with
      closers := handle.toList.map Closer.watching ++ s.closers.eraseIdx i } + {c} =
        core.of s := by
    have := hof core
    cases handle with
    | none => exact this.trans (add_zero _)
    | some c' => exact this.trans (add_zero _)
  have hhandles : handles.of { s with
      closers := handle.toList.map Closer.watching ++ s.closers.eraseIdx i } = handles.of s := by
    have := hof handles
    cases handle with
    | none => exact add_right_cancel this
    | some c' => exact add_right_cancel this
  have hstored : c ∈ stored.of s :=
    mem_stored.2 (.inr ⟨_, List.mem_of_getElem? hi, rfl⟩)
  refine h.letGo rfl rfl rfl rfl rfl (hsame own (fun _ => rfl) rfl)
    (hsame counted (fun _ => rfl) rfl) (fun l => hsame (tracked l) (fun _ => rfl) rfl) ?_
    hhandles.le (h.stored_apart hstored).2 ?_
  · rw [← hcore]
    exact Multiset.le_add_right _ _
  · ext c'
    simp only [mem_held, Set.mem_insert_iff, ← hcore, hhandles, Multiset.mem_add,
      Multiset.mem_singleton]
    tauto

end ConnectionState

/-! ### Unregister -/

/-- A tracked socket is removed. -/
theorem AcceptorOk.remove {limits : ConnectionLimits} {l : Listener} {t : AcceptorTables}
    {c : Socket} {tracked : Multiset Socket} {pc : AcceptPc}
    (h : AcceptorOk limits l t (c ::ₘ tracked) pc) :
    AcceptorOk limits l (t.removeConnection c.fd) tracked pc := by
  have htables := h.tables.remove
  refine ⟨h.regular, h.listener, htables, ?_, fun ip hlim hcounts => ?_⟩
  · have hroom := h.room
    rw [h.tables.length_activeFds, Multiset.card_cons] at hroom
    rw [htables.length_activeFds]
    omega
  · have hip := h.ipRoom ip hlim hcounts
    rw [addressed_cons] at hip
    refine le_trans ?_ hip
    omega

/-- A number is removed that another acceptor tracks. -/
theorem AcceptorOk.remove_of_not_mem {limits : ConnectionLimits} {l : Listener}
    {t : AcceptorTables} {fd : Nat} {tracked : Multiset Socket} {pc : AcceptPc}
    (h : AcceptorOk limits l t tracked pc) (hnot : ∀ c ∈ tracked, c.fd ≠ fd) :
    AcceptorOk limits l (t.removeConnection fd) tracked pc := by
  have htables := h.tables.remove_of_not_mem hnot
  refine ⟨h.regular, h.listener, htables, ?_, h.ipRoom⟩
  rw [htables.length_activeFds, ← h.tables.length_activeFds]
  exact h.room

namespace ConnectionState

variable {limits : ConnectionLimits} {s : ConnectionState} {c : Socket} {l : Listener} {i : Nat}

/-- An entry is taken out of the map. -/
theorem Inv.takeEntry (h : Inv limits s) {closer : Closer} (hi : s.closers[i]? = some closer)
    (hentry : closer.entry = none) (hcounted : closer.counted = none)
    (htracked : ∀ l, closer.tracked l = none) {fd : Nat}
    (hfind : s.connections.find? fd = some c) :
    Inv limits { s with
      connections := s.connections.erase fd,
      closers := .taken c .removeTcp closer.handle :: s.closers.eraseIdx i } := by
  have hof : ∀ w : Portion, w.of { s with
        connections := s.connections.erase fd,
        closers := .taken c .removeTcp closer.handle :: s.closers.eraseIdx i } +
      single (w.entry c) + single (w.closer closer) =
        w.of s + single (w.closer (.taken c .removeTcp closer.handle)) := by
    intro w
    have hswap : w.of { s with
          closers := .taken c .removeTcp closer.handle :: s.closers.eraseIdx i } +
        single (w.closer closer) =
          w.of s + single (w.closer (.taken c .removeTcp closer.handle)) :=
      w.of_swap rfl rfl hi rfl
    have herase := w.of_erase { s with
      closers := .taken c .removeTcp closer.handle :: s.closers.eraseIdx i } hfind
    rw [← hswap, ← herase]
  have hmoves : ∀ w : Portion, w.closer closer = none →
      w.closer (.taken c .removeTcp closer.handle) = w.entry c → w.of { s with
        connections := s.connections.erase fd,
        closers := .taken c .removeTcp closer.handle :: s.closers.eraseIdx i } = w.of s := by
    intro w hnone htaken
    have := hof w
    rw [hnone, htaken, single_none, add_zero] at this
    exact add_right_cancel this
  refine h.of_same rfl rfl rfl rfl (fun n c' hc' => ?_) ⟨hmoves core hentry rfl, ?_,
    hmoves own rfl rfl, hmoves counted hcounted rfl, fun l => hmoves (tracked l) (htracked l) rfl⟩
  · have hc'' : (s.connections.erase fd).find? n = some c' := hc'
    rw [AssocMap.find?_erase] at hc''
    split at hc''
    · cases hc''
    · exact h.entries n c' hc''
  · have := hof handles
    rw [show handles.entry c = none from rfl, single_none, add_zero] at this
    exact add_right_cancel this

/-- `Unregister` goes on, in the tables of one acceptor. -/
theorem Inv.removeConnection (h : Inv limits s) {stage stage' : UnregisterStage}
    {handle : Option Socket} (hi : s.closers[i]? = some (.taken c stage handle)) (l₀ : Listener)
    (hcounted : (Closer.taken c stage' handle).counted = (Closer.taken c stage handle).counted)
    (hbefore : (Closer.taken c stage handle).tracked l₀ = if c.listener = l₀ then some c else none)
    (hafter : (Closer.taken c stage' handle).tracked l₀ = none)
    (hother : ∀ l, l ≠ l₀ →
      (Closer.taken c stage' handle).tracked l = (Closer.taken c stage handle).tracked l) :
    Inv limits { s.setTables l₀ ((s.tables l₀).removeConnection c.fd) with
      closers := .taken c stage' handle :: s.closers.eraseIdx i } := by
  set s' : ConnectionState := { s.setTables l₀ ((s.tables l₀).removeConnection c.fd) with
      closers := .taken c stage' handle :: s.closers.eraseIdx i } with hs'
  have hsame : ∀ w : Portion, w.closer (.taken c stage' handle) = w.closer (.taken c stage handle) →
      w.of s' = w.of s := fun w hw => w.of_swap_eq rfl rfl hi rfl hw
  have hcore : core.of s' = core.of s := hsame core rfl
  have hhandles : handles.of s' = handles.of s := hsame handles rfl
  have hmem : c ∈ core.of s := mem_core.2 (.inr (.inr ⟨_, List.mem_of_getElem? hi, rfl⟩))
  refine ⟨fun l => ?_, h.entries, ?_, ?_, ?_, ?_⟩
  · show AcceptorOk limits l ((s.setTables l₀ ((s.tables l₀).removeConnection c.fd)).tables l) _
      (s.threads l)
    rw [tables_setTables]
    by_cases hl : l = l₀
    · rw [if_pos hl, hl]
      have hok := h.acceptors l₀
      have hswap : (tracked l₀).of s' + single ((Closer.taken c stage handle).tracked l₀) =
          (tracked l₀).of s + single ((Closer.taken c stage' handle).tracked l₀) :=
        (tracked l₀).of_swap rfl rfl hi rfl
      rw [hbefore, hafter, single_none, add_zero] at hswap
      rw [← hswap] at hok
      by_cases hlistener : c.listener = l₀
      · rw [if_pos hlistener, single_some, add_comm, Multiset.singleton_add] at hok
        exact hok.remove
      · rw [if_neg hlistener, single_none, add_zero] at hok hswap
        refine hok.remove_of_not_mem fun c' hc' hfd => ?_
        rw [hswap] at hc'
        obtain ⟨hcore', hl'⟩ := core_of_tracked hc'
        have heq := h.kernel.eq_of_fd (.inl hcore') (.inl hmem) hfd
        exact hlistener (heq ▸ hl')
    · rw [if_neg hl, hsame (tracked l) (hother l hl)]
      exact h.acceptors l
  · rw [hcore]
    exact h.nodup
  · rw [hsame own rfl, hhandles]
    exact h.apart
  · rw [held, hcore, hhandles]
    exact h.kernel
  · rw [hsame counted hcounted]
    exact h.counts

/-- `Unregister` takes the connection off the count. -/
theorem Inv.uncount (h : Inv limits s) {handle : Option Socket}
    (hi : s.closers[i]? = some (.taken c .uncount handle)) :
    Inv limits { s.uncount with
      closers := .taken c .release handle :: s.closers.eraseIdx i } := by
  set s' : ConnectionState := { s.uncount with
      closers := .taken c .release handle :: s.closers.eraseIdx i } with hs'
  have hsame : ∀ w : Portion, w.closer (.taken c .release handle) =
      w.closer (.taken c .uncount handle) → w.of s' = w.of s :=
    fun w hw => w.of_swap_eq rfl rfl hi rfl hw
  have hcore : core.of s' = core.of s := hsame core rfl
  have hhandles : handles.of s' = handles.of s := hsame handles rfl
  refine ⟨fun l => ?_, h.entries, ?_, ?_, ?_, ?_⟩
  · rw [hsame (tracked l) rfl]
    exact h.acceptors l
  · rw [hcore]
    exact h.nodup
  · rw [hsame own rfl, hhandles]
    exact h.apart
  · rw [held, hcore, hhandles]
    exact h.kernel
  · have hswap : counted.of s' + single (counted.closer (.taken c .uncount handle)) =
        counted.of s + single (counted.closer (.taken c .release handle)) :=
      counted.of_swap rfl rfl hi rfl
    have hcounted : counted.of s' + {c} = counted.of s := hswap.trans (add_zero _)
    have hcount : s'.activeConnections =
        if s.activeConnections = 0 then 2 ^ 64 - 1 else s.activeConnections - 1 := rfl
    have hbefore := h.counts
    rw [← hcounted, Multiset.card_add, Multiset.card_singleton] at hbefore
    rw [hcount]
    split
    · omega
    · omega

/-- **`Unregister`** keeps the invariant. -/
theorem Inv.unregisterStep (h : Inv limits s) {closer : Closer}
    (hi : s.closers[i]? = some closer) :
    Inv limits ({ s with closers := s.closers.eraseIdx i }.unregisterStep closer) := by
  cases closer with
  | watching c =>
    show Inv limits (take _ c.fd (some c) [.watching c])
    unfold take
    cases hentry : entryOf { s with closers := s.closers.eraseIdx i } c.fd (some c) with
    | none =>
      have hsame : ∀ w : Portion, w.of { s with
          closers := [.watching c] ++ s.closers.eraseIdx i } = w.of s :=
        fun w => w.of_swap_eq rfl rfl hi rfl rfl
      exact h.of_same rfl rfl rfl rfl h.entries ⟨hsame core, hsame handles, hsame own,
        hsame counted, fun l => hsame (tracked l)⟩
    | some c' =>
      have hfind := (Option.filter_eq_some_iff.mp hentry).1
      exact h.takeEntry hi rfl rfl (fun _ => rfl) hfind
  | stopping fd =>
    show Inv limits (take _ fd none [])
    unfold take
    cases hentry : entryOf { s with closers := s.closers.eraseIdx i } fd none with
    | none =>
      have hsame : ∀ w : Portion, w.closer (.stopping fd) = none → w.of { s with
          closers := [] ++ s.closers.eraseIdx i } = w.of s := by
        intro w hw
        have := w.of_eraseIdx s hi
        rw [hw] at this
        exact (add_zero _).symm.trans this
      exact h.of_same rfl rfl rfl rfl h.entries ⟨hsame core rfl, hsame handles rfl, hsame own rfl,
        hsame counted rfl, fun l => hsame (tracked l) rfl⟩
    | some c' =>
      have hfind := (Option.filter_eq_some_iff.mp hentry).1
      exact h.takeEntry hi rfl rfl (fun _ => rfl) hfind
  | taken c stage handle =>
    cases stage with
    | removeTcp =>
      refine h.removeConnection hi .tcp rfl rfl (if_neg (by simp)) fun l hl => ?_
      have hl' : l = .unix := by
        cases l with
        | tcp => exact absurd rfl hl
        | unix => rfl
      simp [Closer.tracked, hl']
    | removeUnix =>
      refine h.removeConnection hi .unix rfl ?_ rfl fun l hl => ?_
      · simp [Closer.tracked]
      · simp [Closer.tracked, hl]
    | uncount => exact h.uncount hi
    | release => exact h.releaseEntry hi

/-! ## 6. Every run -/

/-- **No registration fails** here: the reactor is running, `fcntl` succeeds, and the multiplexer
    takes the descriptor. -/
def registers (s : ConnectionState) : Action → Bool
  | .advance l reply =>
    match s.threads l with
    | .checking _ => s.running
    | .settingFlags _ => reply
    | .adding _ => reply
    | _ => true
  | _ => true

/-- The accept thread keeps the invariant. -/
theorem Inv.acceptStep (h : Inv limits s) {reply : Bool} {s' : ConnectionState}
    (hok : s.registers (.advance l reply) = true) (hstep : s.acceptStep limits l reply = some s') :
    Inv limits s' := by
  have hacc := h.acceptors l
  unfold ConnectionState.acceptStep at hstep
  cases hpc : s.threads l with
  | idle =>
    rw [hpc] at hstep
    cases hstep
  | accepted c =>
    rw [hpc] at hstep hacc
    cases hstep
    split
    · exact h.setThread _ (by rw [hpc]; rfl) (by rw [hpc]; rfl) (by rw [hpc]; rfl)
        ⟨rfl, hacc.listener, hacc.tables, hacc.room, hacc.ipRoom⟩
    · rename_i hroom
      exact h.setThread _ (by rw [hpc]; rfl) (by rw [hpc]; rfl) (by rw [hpc]; rfl)
        ⟨rfl, hacc.listener, hacc.tables, Nat.lt_of_not_le hroom, hacc.ipRoom⟩
  | acl c =>
    rw [hpc] at hstep hacc
    cases hstep
    split
    · exact h.setThread _ (by rw [hpc]; rfl) (by rw [hpc]; rfl) (by rw [hpc]; rfl)
        ⟨rfl, hacc.listener, hacc.tables, Nat.le_of_succ_le hacc.room, hacc.ipRoom⟩
    · exact h.setThread _ (by rw [hpc]; rfl) (by rw [hpc]; rfl) (by rw [hpc]; rfl)
        ⟨rfl, hacc.listener, hacc.tables, hacc.room, hacc.ipRoom⟩
  | perIp c =>
    rw [hpc] at hstep hacc
    cases hstep
    split
    · exact h.setThread _ (by rw [hpc]; rfl) (by rw [hpc]; rfl) (by rw [hpc]; rfl)
        ⟨rfl, hacc.listener, hacc.tables, Nat.le_of_succ_le hacc.room, hacc.ipRoom⟩
    · rename_i hlimit
      refine h.setThread _ (by rw [hpc]; rfl) (by rw [hpc]; rfl) (by rw [hpc]; rfl)
        ⟨rfl, hacc.listener, hacc.tables, hacc.room, fun ip hlim hcounts => ?_⟩
      have hbefore := hacc.ipRoom ip hlim hcounts
      simp only [AcceptPc.admittedFrom] at hbefore ⊢
      split
      · rename_i hip
        subst hip
        by_contra hcon
        apply hlimit
        have hpositive : addressed ((tracked l).of s) c.clientIp ≠ 0 := by omega
        have hfind : (s.tables l).perIpConnections.find? c.clientIp =
            some (addressed ((tracked l).of s) c.clientIp) := by
          rw [hacc.tables.counts, if_pos hcounts, positive, if_neg hpositive]
        simp only [AcceptorTables.ipLimitReached, hfind, hcounts, Option.any_some, Bool.and_true,
          Bool.and_eq_true, decide_eq_true_eq]
        omega
      · exact hbefore
  | rejected c =>
    rw [hpc] at hstep
    cases hstep
    exact h.reject hpc
  | tracking c =>
    rw [hpc] at hstep
    cases hstep
    exact h.track hpc
  | counting c =>
    rw [hpc] at hstep
    cases hstep
    exact h.count hpc
  | registering c =>
    rw [hpc] at hstep hacc
    dsimp only at hstep
    split at hstep
    · cases hstep
      exact (h.setLifecycle _ s.running).setThread _ (by rw [show _ = _ from hpc]; rfl)
        (by rw [show _ = _ from hpc]; rfl) (by rw [show _ = _ from hpc]; rfl)
        ⟨rfl, hacc.listener, hacc.tables, hacc.room, hacc.ipRoom⟩
    · cases hstep
  | checking c =>
    rw [hpc] at hstep hacc
    simp only [registers, hpc] at hok
    cases hstep
    rw [if_pos hok]
    exact h.setThread _ (by rw [hpc]; rfl) (by rw [hpc]; rfl) (by rw [hpc]; rfl)
      ⟨rfl, hacc.listener, hacc.tables, hacc.room, hacc.ipRoom⟩
  | settingFlags c =>
    rw [hpc] at hstep hacc
    simp only [registers, hpc] at hok
    cases hstep
    rw [if_pos hok]
    exact h.setThread _ (by rw [hpc]; rfl) (by rw [hpc]; rfl) (by rw [hpc]; rfl)
      ⟨rfl, hacc.listener, hacc.tables, hacc.room, hacc.ipRoom⟩
  | emplacing c =>
    rw [hpc] at hstep
    dsimp only at hstep
    split at hstep
    · -- an entry under the number would be the socket itself
      rename_i hin
      obtain ⟨c', hfind⟩ := Option.isSome_iff_exists.mp hin
      have hstored := h.stored_apart (mem_stored.2 (.inl ⟨c.fd, hfind⟩))
      have hown : c ∈ own.of s := mem_own.2 ⟨l, by rw [hpc]; rfl⟩
      have hheld : c ∈ s.held := .inl (mem_core.2 (.inl ⟨l, by rw [hpc]; rfl⟩))
      have heq := h.kernel.eq_of_fd hstored.1 hheld (h.entries c.fd c' hfind)
      exact absurd (heq ▸ hown) hstored.2
    · rename_i hnot
      cases hstep
      refine h.emplace hpc ?_
      rwa [AssocMap.contains, Option.not_isSome_iff_eq_none] at hnot
  | adding c =>
    rw [hpc] at hstep hacc
    simp only [registers, hpc] at hok
    dsimp only at hstep
    rw [if_pos hok] at hstep
    cases hstep
    exact (h.setLifecycle _ s.running).setThread _ (by rw [show _ = _ from hpc]; rfl)
      (by rw [show _ = _ from hpc]; rfl) (by rw [show _ = _ from hpc]; rfl)
      ⟨rfl, fun c' hc' => by (cases hc'), hacc.tables, hacc.room, hacc.ipRoom⟩
  | unplacing c => exact absurd hacc.regular (by rw [hpc]; simp [AcceptPc.regular])
  | refused c => exact absurd hacc.regular (by rw [hpc]; simp [AcceptPc.regular])
  | uncounting c => exact absurd hacc.regular (by rw [hpc]; simp [AcceptPc.regular])
  | closing c => exact absurd hacc.regular (by rw [hpc]; simp [AcceptPc.regular])
  | untracking c => exact absurd hacc.regular (by rw [hpc]; simp [AcceptPc.regular])

/-- **Every step** keeps it, if no registration fails. -/
theorem Inv.step (h : Inv limits s) {a : Action} {s' : ConnectionState} (hok : s.registers a = true)
    (hstep : s.step limits a = some s') : Inv limits s' := by
  cases a with
  | accept l fd clientIp =>
    simp only [ConnectionState.step] at hstep
    split at hstep
    · rename_i hfree
      cases hstep
      exact h.accept (c := ⟨s.kernel.accepts, fd, l, _⟩) hfree.1 rfl hfree.2 rfl
    · cases hstep
  | advance l reply => exact h.acceptStep hok hstep
  | watch fd =>
    simp only [ConnectionState.step] at hstep
    split at hstep
    · cases hstep
    · rename_i c hfind
      cases hstep
      have hstored := h.stored_apart (mem_stored.2 (.inl ⟨fd, hfind⟩))
      exact h.watch hstored.1 hstored.2
  | share i =>
    simp only [ConnectionState.step] at hstep
    split at hstep
    · rename_i c hi
      cases hstep
      have hhandle := h.handle_apart (mem_handles.2 ⟨_, List.mem_of_getElem? hi, rfl⟩)
      exact h.watch hhandle.1 hhandle.2
    · cases hstep
  | unregister i =>
    simp only [ConnectionState.step] at hstep
    split at hstep
    · cases hstep
    · rename_i closer hi
      cases hstep
      exact h.unregisterStep hi
  | drop i =>
    simp only [ConnectionState.step] at hstep
    split at hstep
    · rename_i c hi
      cases hstep
      exact h.drop hi
    · cases hstep
  | stop =>
    simp only [ConnectionState.step] at hstep
    split at hstep
    · cases hstep
      split
      · exact h.setLifecycle .stop false
      · exact h
    · cases hstep
  | stopOne fd =>
    simp only [ConnectionState.step] at hstep
    split at hstep
    · cases hstep
      have hsame : ∀ w : Portion, w.closer (.stopping fd) = none →
          w.of { s with closers := .stopping fd :: s.closers } = w.of s := by
        intro w hw
        rw [w.of_cons, hw]
        exact add_zero _
      exact h.of_same rfl rfl rfl rfl h.entries ⟨hsame core rfl, hsame handles rfl, hsame own rfl,
        hsame counted rfl, fun l => hsame (tracked l) rfl⟩
    · cases hstep
  | stopped =>
    simp only [ConnectionState.step] at hstep
    split at hstep
    · cases hstep
      exact h.setLifecycle .free s.running
    · cases hstep

theorem of_start (w : Portion) (hw : w.thread .idle = none) :
    w.of ({} : ConnectionState) = 0 := by
  simp [Portion.of, hw, AssocMap.empty]

theorem inv_start (limits : ConnectionLimits) : Inv limits {} := by
  have htracked : ∀ l, (tracked l).of ({} : ConnectionState) = 0 := fun l => of_start _ rfl
  have hcore : core.of ({} : ConnectionState) = 0 := of_start _ rfl
  have hhandles : handles.of ({} : ConnectionState) = 0 := of_start _ rfl
  have hheld : ({} : ConnectionState).held = ∅ := by
    ext c
    simp [mem_held, hcore, hhandles]
  refine ⟨fun l => ?_, fun n c hc => by (cases hc), ?_, ?_, ?_, ?_⟩
  · rw [htracked]
    refine ⟨rfl, fun c hc => by (cases hc), ⟨List.nodup_nil, rfl, fun n ip => by simp, fun ip => ?_⟩,
      Nat.zero_le _, fun ip hlim _ => ?_⟩
    · simp [addressed, positive]
    · simpa [addressed, AcceptPc.admittedFrom] using hlim.le
  · rw [hcore]
    exact Multiset.nodup_zero
  · rw [hhandles]
    exact fun c _ hc => Multiset.notMem_zero c hc
  · rw [hheld]
    exact ⟨fun n d => by simp, fun c hc => hc.elim, fun c hc => hc.elim, fun d => by simp,
      fun e he => by (cases he), List.nodup_nil⟩
  · rw [of_start counted rfl]
    rfl

/-! ### When nothing is half done -/

/-- The connections of an acceptor that are registered, from one address. -/
def registeredFrom (s : ConnectionState) (l : Listener) (ip : Bytes) : Nat :=
  s.connections.entries.countP fun e => e.2.listener = l && e.2.clientIp = ip

/-- A closer outside `Unregister` has no entry that is tracked or counted. -/
theorem no_entry_of_outside {closer : Closer} (hout : closer.inUnregister = false) :
    (∀ l, closer.tracked l = none) ∧ closer.counted = none := by
  cases closer with
  | watching c' => exact ⟨fun _ => rfl, rfl⟩
  | stopping fd => exact ⟨fun _ => rfl, rfl⟩
  | taken c' stage handle => cases hout

theorem mem_tracked_of_quiet (hquiet : s.Quiet) :
    c ∈ (tracked l).of s ↔ ∃ n, s.connections.find? n = some c ∧ c.listener = l := by
  rw [mem_tracked]
  constructor
  · rintro (⟨l', hpc, -⟩ | hentry | ⟨closer, hin, htaken⟩)
    · rw [hquiet.1 l'] at hpc
      cases hpc
    · exact hentry
    · rw [(no_entry_of_outside (hquiet.2 closer hin)).1 l] at htaken
      cases htaken
  · exact fun hentry => .inr (.inl hentry)

/-- Only what is in the map counts. -/
theorem of_quiet (w : Portion) (hquiet : s.Quiet) (hidle : w.thread .idle = none)
    (hcloser : ∀ closer : Closer, closer.inUnregister = false → w.closer closer = none) :
    w.of s = (s.connections.entries.map fun e => single (w.entry e.2)).sum := by
  have hzero : (s.closers.map fun closer => single (w.closer closer)).sum = 0 := by
    refine List.sum_eq_zero fun m hm => ?_
    obtain ⟨closer, hin, rfl⟩ := List.mem_map.mp hm
    rw [hcloser closer (hquiet.2 closer hin)]
    rfl
  unfold Portion.of
  rw [hquiet.1, hquiet.1, hidle, hzero]
  simp

theorem addressed_quiet (hquiet : s.Quiet) (l : Listener) (ip : Bytes) :
    addressed ((tracked l).of s) ip = s.registeredFrom l ip := by
  rw [of_quiet (tracked l) hquiet rfl fun closer hout => (no_entry_of_outside hout).1 l]
  unfold registeredFrom
  induction s.connections.entries with
  | nil => rfl
  | cons e entries ih =>
    rw [List.map_cons, List.sum_cons, List.countP_cons, ← ih, addressed, Multiset.countP_add,
      Nat.add_comm]
    congr 1
    by_cases hl : e.2.listener = l
    · by_cases hip : e.2.clientIp = ip
      · simp [tracked, hl, hip, ← Multiset.cons_zero]
      · simp [tracked, hl, hip, ← Multiset.cons_zero]
    · simp [tracked, hl]

theorem card_counted_quiet (hquiet : s.Quiet) :
    (counted.of s).card = s.connections.size := by
  rw [of_quiet counted hquiet rfl fun closer hout => (no_entry_of_outside hout).2]
  unfold AssocMap.size
  induction s.connections.entries with
  | nil => rfl
  | cons e entries ih =>
    rw [List.map_cons, List.sum_cons, Multiset.card_add, ih, List.length_cons, Nat.add_comm]
    rfl

theorem size_eq_tracked_quiet (hquiet : s.Quiet) :
    s.connections.size = ((tracked .tcp).of s).card + ((tracked .unix).of s).card := by
  rw [of_quiet (tracked .tcp) hquiet rfl fun closer hout => (no_entry_of_outside hout).1 .tcp,
    of_quiet (tracked .unix) hquiet rfl fun closer hout => (no_entry_of_outside hout).1 .unix]
  unfold AssocMap.size
  induction s.connections.entries with
  | nil => rfl
  | cons e entries ih =>
    rw [List.map_cons, List.map_cons, List.sum_cons, List.sum_cons, Multiset.card_add,
      Multiset.card_add, List.length_cons, ih]
    cases hl : e.2.listener with
    | tcp =>
      simp only [tracked, hl, if_true, reduceCtorEq, if_false, single_some, single_none,
        Multiset.card_singleton, Multiset.card_zero]
      omega
    | unix =>
      simp only [tracked, hl, if_true, reduceCtorEq, if_false, single_some, single_none,
        Multiset.card_singleton, Multiset.card_zero]
      omega

/-- **A state is in order**: every `close` hit what it was meant for; no descriptor was closed
    twice; each one is closed or still somebody's; and when no accept or close is half done the
    accounts are those of the map. -/
structure Sound (limits : ConnectionLimits) (s : ConnectionState) : Prop where
  hits : ∀ e ∈ s.kernel.closes, e.2 = some e.1
  once : (s.kernel.closes.map Prod.fst).Nodup
  closed : ∀ d, d ∈ s.kernel.closes.map Prod.fst ↔
    d < s.kernel.accepts ∧ ¬ ∃ c ∈ s.held, c.serial = d
  opened : ∀ c ∈ s.held, s.kernel.opened.find? c.fd = some c.serial
  activeFds : s.Quiet → ∀ l n, n ∈ (s.tables l).activeFds ↔
    ∃ c, s.connections.find? n = some c ∧ c.listener = l
  limit : ∀ l, (s.tables l).activeFds.Nodup ∧
    (s.tables l).activeFds.length ≤ limits.maxConnections
  perIp : s.Quiet → ∀ l ip, (s.tables l).perIpConnections.find? ip =
    positive (if countsIp ip then s.registeredFrom l ip else 0)
  perIpLimit : ∀ l ip count, 0 < limits.maxConnectionsPerIp →
    (s.tables l).perIpConnections.find? ip = some count →
      (count : Int) ≤ limits.maxConnectionsPerIp
  active : s.Quiet → s.activeConnections = s.connections.size

theorem Inv.sound (h : Inv limits s) : Sound limits s where
  hits := h.kernel.hits
  once := h.kernel.once
  closed d := by
    rw [h.kernel.closed]
    refine and_congr_right fun _ => ?_
    simp only [not_exists, not_and, ne_eq]
  opened c hc := h.kernel.find? hc
  activeFds hquiet l n := by
    rw [(h.acceptors l).tables.mem_activeFds]
    constructor
    · rintro ⟨c, hc, hfd⟩
      obtain ⟨n', hfind, hl⟩ := (mem_tracked_of_quiet hquiet).mp hc
      have hn := h.entries n' c hfind
      exact ⟨c, by rw [← hfd, hn]; exact hfind, hl⟩
    · rintro ⟨c, hfind, hl⟩
      exact ⟨c, (mem_tracked_of_quiet hquiet).mpr ⟨n, hfind, hl⟩, h.entries n c hfind⟩
  limit l := ⟨(h.acceptors l).tables.nodup, Nat.le_of_add_right_le (h.acceptors l).room⟩
  perIp hquiet l ip := by
    rw [(h.acceptors l).tables.counts, addressed_quiet hquiet]
  perIpLimit l ip count hlim hfind := by
    rw [(h.acceptors l).tables.counts] at hfind
    by_cases hcounts : countsIp ip = true
    · rw [if_pos hcounts, positive] at hfind
      have := (h.acceptors l).ipRoom ip hlim hcounts
      split at hfind
      · cases hfind
      · have := Option.some.inj hfind
        omega
    · rw [if_neg hcounts] at hfind
      cases hfind
  active hquiet := by
    have hsize := size_eq_tracked_quiet hquiet
    have htcp := (h.acceptors .tcp).room
    have hunix := (h.acceptors .unix).room
    rw [(h.acceptors .tcp).tables.length_activeFds] at htcp
    rw [(h.acceptors .unix).tables.length_activeFds] at hunix
    have hmax := limits.maxConnections_le
    rw [h.counts, card_counted_quiet hquiet]
    omega

/-- **Ownership and accounting in every run** in which no registration fails: whatever the accept
    threads, the event loop, the reaper, the workers and `Stop` do, in whatever order, and whichever
    free numbers the kernel hands out. -/
theorem descriptors_sound (limits : ConnectionLimits) (actions : List Action)
    (s : ConnectionState) (hrun : run (step limits) {} actions = some s)
    (hok : Meets (step limits) (fun s a => s.registers a = true) {} actions) : Sound limits s := by
  have hstep : ∀ s a s', Inv limits s → s.registers a = true → step limits s a = some s' →
      Inv limits s' := fun _ _ _ hs ha hs' => hs.step ha hs'
  exact (run_inv_of_meets hstep (inv_start limits) hok hrun).sound

/-! ### Two runs -/

/-- The accept thread goes on so many times, with `true` as the reply. -/
def advances (l : Listener) (n : Nat) : List Action := List.replicate n (.advance l true)

def twoConnections : ConnectionLimits := ⟨2, 1, by decide⟩

/-- A connection comes and goes, with a worker that lets go last; its number is given out again. -/
def numberReused : List Action :=
  [.accept .tcp 5 [49]] ++ advances .tcp 10 ++
    [.watch 5, .share 0, .unregister 0, .unregister 0, .unregister 0, .unregister 0, .unregister 0,
      .drop 0, .drop 0, .accept .unix 5 []] ++ advances .unix 10

theorem descriptors_sound_numberReused :
    ∃ s, run (step twoConnections) {} numberReused = some s ∧ Sound twoConnections s ∧
      s.kernel.closes = [(0, some 0)] ∧ (s.tables .unix).activeFds = [5] ∧
      s.activeConnections = 1 := by
  have hmeets : Meets (step twoConnections) (fun s a => s.registers a = true) {} numberReused := by
    decide +kernel
  have hend : (run (step twoConnections) {} numberReused).map (fun s =>
      (s.kernel.closes, (s.tables .unix).activeFds, s.activeConnections)) =
        some ([(0, some 0)], [5], 1) := by decide +kernel
  obtain ⟨s, hs, heq⟩ := Option.map_eq_some_iff.mp hend
  simp only [Prod.mk.injEq] at heq
  exact ⟨s, hs, descriptors_sound twoConnections numberReused s hs hmeets, heq⟩

/-- The multiplexer refuses a connection; its object closes the number, the other acceptor gets it,
    and then the accept thread closes it once more. -/
def strangerClosed : List Action :=
  [.accept .tcp 5 [49]] ++ advances .tcp 9 ++ [.advance .tcp false, .advance .tcp true,
    .accept .unix 5 []] ++ advances .unix 10 ++ advances .tcp 3

/-- **The claim fails** where a registration does: a stranger's descriptor is closed, and stays
    registered. -/
theorem stranger_closed :
    ∃ s, run (step twoConnections) {} strangerClosed = some s ∧
      s.kernel.closes = [(0, some 0), (0, some 1)] ∧ s.kernel.opened.find? 5 = none ∧
      (s.connections.find? 5).map (·.serial) = some 1 ∧ ¬ Sound twoConnections s := by
  have hend : (run (step twoConnections) {} strangerClosed).map (fun s =>
      (s.kernel.closes, s.kernel.opened.find? 5, (s.connections.find? 5).map (·.serial))) =
        some ([(0, some 0), (0, some 1)], none, some 1) := by decide +kernel
  obtain ⟨s, hs, heq⟩ := Option.map_eq_some_iff.mp hend
  simp only [Prod.mk.injEq] at heq
  refine ⟨s, hs, heq.1, heq.2.1, heq.2.2, fun hsound => ?_⟩
  have := hsound.hits (0, some 1) (by rw [heq.1]; simp)
  cases this

end ConnectionState

end Nvecd.Server

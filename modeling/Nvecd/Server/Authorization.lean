/-
  File:      Nvecd/Server/Authorization.lean
  Subject:   Who may change what (`server/request_dispatcher.cpp`, `server/command_types.h`,
             `server/http_server.cpp`): what is left of a run without those who do not know the
             password.

  A connection is told apart from others by its flag alone, which only `AUTH` raises; a request
  over HTTP brings the password along. Queries and reports are open to everybody, and so is the
  cache that queries fill.

  * `ShowsPassword` -- the lines `AUTH` reads the password from (`parseCommand_auth`);
  * `Outsiders`, `Arrival.fromOutside` -- connections and requests without the password;
  * `dispatch_outside`, `serveHttpRequest_outside` -- what one of their requests changes: nothing;
  * `answer_dispatch`, `answer_serveHttpRequest` -- what is answered whatever the cache holds;
  * `outsiders_change_nothing` -- and so they can be left out of a run.
-/
import Nvecd.Server.CacheTransparency
import Nvecd.Server.RequestWords

namespace Nvecd.Server

open Nvecd.Lib Nvecd.Utils Nvecd.Storage Nvecd.Events Nvecd.Vectors Nvecd.Similarity Nvecd.Cache
open Nvecd.Configuration (RuntimeState RuntimeRequest RuntimeAnswer DoubleText)

/-! ## 1. The password -/

/-- **A line shows a password**: its first word is `AUTH`, and behind its first blank or tab is
    the password. -/
structure ShowsPassword (password line : Bytes) : Prop where
  command : ∃ name, (wordsOf line).head? = some name ∧ toUpper name = ascii "AUTH"
  behind : ((rawFirstLine line).dropWhile fun b => ¬(b = 32 ∨ b = 9)).tail = password

section Password

variable {stof : Bytes → Option UInt32} {takesPart : Bytes → Bool} {maxTopK : Nat}
  {password line name : Bytes} {arguments : List Bytes}

theorem parseAdmin_ne_auth : parseAdmin name arguments ≠ .ok (.auth password) := by
  intro h
  unfold parseAdmin at h
  repeat' split at h
  all_goals first
    | cases h
    | skip
  · unfold parseConfig at h
    repeat' split at h
    all_goals cases h
  · unfold parseDump at h
    repeat' split at h
    all_goals cases h
  · unfold parseDebug at h
    repeat' split at h
    all_goals cases h
  · unfold parseCache at h
    repeat' split at h
    all_goals cases h
  · unfold parseSet at h
    repeat' split at h
    all_goals cases h
  · unfold parseGet at h
    repeat' split at h
    all_goals cases h
  · unfold parseShow at h
    repeat' split at h
    all_goals cases h

/-- No other command is read as `AUTH`. -/
theorem parseWords_auth
    (h : parseWords stof takesPart maxTopK line name arguments = .ok (.auth password)) :
    name = ascii "AUTH" ∧ parseAuth line = .ok (.auth password) := by
  have hmap : ∀ {α : Type} (x : Except Error α) (f : α → Request),
      (∀ a, f a ≠ .auth password) → x.map f ≠ .ok (.auth password) := by
    intro α x f hf hx
    cases x with
    | error e => cases hx
    | ok a => exact hf a (Except.ok.inj hx)
  have hwrite : ∀ cmd, Request.write cmd ≠ .auth password := fun _ heq => by cases heq
  have hsim : ∀ cmd, Request.sim cmd ≠ .auth password := fun _ heq => by cases heq
  have hsimv : ∀ cmd, Request.simv cmd ≠ .auth password := fun _ heq => by cases heq
  unfold parseWords at h
  split at h
  · exact ⟨‹_›, h⟩
  · exfalso
    repeat' split at h
    · exact hmap _ _ hwrite h
    · exact hmap _ _ hwrite h
    · exact hmap _ _ hwrite h
    · exact hmap _ _ hwrite h
    · exact hmap _ _ hsim h
    · exact hmap _ _ hsimv h
    · exact parseAdmin_ne_auth h

/-- **What `AUTH` takes for the password stands in the line.** -/
theorem parseCommand_auth
    (h : parseCommand stof takesPart line maxTopK = .ok (.auth password)) :
    ShowsPassword password line := by
  unfold parseCommand at h
  cases hwords : requestTokens line with
  | error e =>
    rw [hwords] at h
    cases h
  | ok tokens =>
    obtain ⟨-, -, hread, hne⟩ := requestTokens_ok_iff.1 hwords
    obtain ⟨name, arguments, rfl⟩ := List.exists_cons_of_ne_nil hne
    rw [hwords] at h
    obtain ⟨hname, hauth⟩ := parseWords_auth h
    refine ⟨⟨name, by rw [hread]; rfl, hname⟩, ?_⟩
    unfold parseAuth at hauth
    split at hauth
    · rename_i hdrop
      cases hauth
      rw [hdrop]
      rfl
    · cases hauth

end Password

/-! ## 2. Outsiders -/

section Server

variable {F A κ S : Type} [DecidableEq κ]

/-- A request without the password: on a connection of an outsider, or over HTTP without a header
    that is accepted. -/
def Arrival.fromOutside (requirepass : Bytes) (outsider : Nat → Bool) : Arrival F A S → Bool
  | .line i _ _ => outsider i
  | .http _ request => !isAuthorized requirepass request.authorization
  | _ => false

/-- **Outsiders** do not know the password: their connections have not shown it, and none of their
    lines does. -/
structure Outsiders (requirepass : Bytes) (outsider : Nat → Bool) (start : ServedState F A κ S)
    (arrivals : List (Arrival F A S)) : Prop where
  asked : requirepass ≠ []
  unknown : ∀ i, outsider i = true → (start.connections i).authenticated = false
  unshown : ∀ i c line, .line i c line ∈ arrivals → outsider i = true →
    ¬ ShowsPassword requirepass line

/-- Two states that outsiders have not told apart: they differ in the cache and in the connections
    of outsiders, none of which is authenticated. -/
structure SameInside (outsider : Nat → Bool) (x y : ServedState F A κ S) : Prop where
  shared : x.server.shared = y.server.shared
  inside : ∀ i, outsider i = false → x.connections i = y.connections i
  outside : ∀ i, outsider i = true → (x.connections i).authenticated = false

variable {env : AccessEnv F A κ S} {s t : ServerState F A κ S}

theorem shared_withRuntime_self (s : ServerState F A κ S) :
    (s.withRuntime s.shared.runtime).shared = s.shared := rfl

variable [FloatOps F] [AnnIndex A]

/-- What needs no privilege changes nothing but the cache and the connection. -/
theorem handleRequest_read {conn : ConnectionContext} (c : Circumstances) {r : Request}
    (h : r.privilege = .kRead) :
    (handleRequest env s conn c r).1.shared = s.shared ∧
      (handleRequest env s conn c r).2.1.authenticated = conn.authenticated := by
  cases r with
  | auth password => exact ⟨rfl, rfl⟩
  | write cmd => cases h
  | sim cmd => exact ⟨rfl, rfl⟩
  | simv cmd => exact ⟨rfl, rfl⟩
  | info => exact ⟨rfl, rfl⟩
  | config sub path =>
    cases sub with
    | help => exact ⟨rfl, rfl⟩
    | «show» =>
      simp only [handleRequest]
      exact ⟨shared_withRuntime_self s, trivial⟩
    | verify => cases h
  | dump sub path => cases h
  | debug on => exact ⟨rfl, rfl⟩
  | cache sub =>
    cases sub with
    | stats => exact ⟨rfl, rfl⟩
    | clear => cases h
    | enable => cases h
    | disable => cases h
  | set name value => cases h
  | get name =>
    simp only [handleRequest]
    exact ⟨shared_withRuntime_self s, trivial⟩
  | showVariables pattern =>
    simp only [handleRequest]
    exact ⟨shared_withRuntime_self s, trivial⟩

theorem dispatchRequest_outside (hpass : env.requirepass ≠ []) {conn : ConnectionContext}
    (hconn : conn.authenticated = false) (c : Circumstances) (r : Request) :
    (dispatchRequest env s conn c r).1.shared = s.shared ∧
      (dispatchRequest env s conn c r).2.1.authenticated = false := by
  unfold dispatchRequest
  split
  · exact ⟨rfl, hconn⟩
  · rename_i hgate
    have hread : r.privilege = .kRead := by
      by_contra hne
      unfold gate at hgate
      rw [if_pos ⟨hpass, hne, by rw [hconn]; exact Bool.false_ne_true⟩] at hgate
      cases hgate
    obtain ⟨hshared, hflag⟩ := @handleRequest_read _ _ _ _ _ env s _ _ conn c r hread
    exact ⟨hshared, hflag.trans hconn⟩

/-- **A line of an outsider** changes nothing, and leaves an outsider behind. -/
theorem dispatch_outside (hpass : env.requirepass ≠ []) {conn : ConnectionContext}
    (hconn : conn.authenticated = false) (c : Circumstances) {line : Bytes}
    (hline : ¬ ShowsPassword env.requirepass line) :
    (dispatch env s conn c line).1.shared = s.shared ∧
      (dispatch env s conn c line).2.1.authenticated = false := by
  unfold dispatch
  split
  · exact ⟨rfl, hconn⟩
  · rename_i password hparse
    refine ⟨rfl, ?_⟩
    unfold handleAuth
    rw [if_neg hpass]
    have hdiffers : constantTimeEquals password env.requirepass ≠ true := by
      rw [Ne, constantTimeEquals_iff]
      intro heq
      exact hline (heq ▸ parseCommand_auth hparse)
    rw [if_neg hdiffers]
    exact hconn
  · exact dispatchRequest_outside hpass hconn c _

/-- **A request over HTTP without the password** changes nothing. -/
theorem serveHttpRequest_outside (c : Circumstances) {r : HttpRequest}
    (h : isAuthorized env.requirepass r.authorization = false) :
    (serveHttpRequest env s c r).1.shared = s.shared := by
  unfold serveHttpRequest
  split
  · rfl
  · rename_i e _
    split
    · rfl
    · rename_i hopen
      have hopen : e.requiresAuthorization = false := by
        by_contra hne
        exact hopen ⟨Bool.eq_true_of_not_eq_false hne, by rw [h]; exact Bool.false_ne_true⟩
      cases e with
      | write route => cases hopen
      | sim =>
        simp only [handleEndpoint]
        split <;> rfl
      | simv =>
        simp only [handleEndpoint]
        split <;> rfl
      | cache sub =>
        cases sub with
        | stats => rfl
        | clear => cases hopen
        | enable => cases hopen
        | disable => cases hopen
      | dump sub => cases hopen
      | _ => rfl

/-! ## 3. Answers that do not come from the cache -/

/-- What a query answers, and reports on the cache and its use. -/
def Request.readsCache : Request → Bool
  | .sim _ | .simv _ | .info | .cache .stats => true
  | _ => false

def Endpoint.readsCache : Endpoint → Bool
  | .write _ | .cache .clear | .cache .enable | .cache .disable | .dump _ | .debug _ => false
  | _ => true

/-- A query, or a report. -/
def Arrival.readsCache (env : AccessEnv F A κ S) : Arrival F A S → Bool
  | .line _ _ text =>
    match parseCommand env.stof env.takesPart text env.maxTopK with
    | .ok r => r.readsCache
    | .error _ => false
  | .http _ request =>
    match endpoint? request.method request.path with
    | some e => e.readsCache
    | none => false
  | _ => false

/-- **What is answered over TCP** does not depend on the cache. -/
theorem answer_dispatch (hs : s.shared = t.shared) (conn : ConnectionContext) (c : Circumstances)
    {line : Bytes}
    (h : ∀ r, parseCommand env.stof env.takesPart line env.maxTopK = .ok r →
      r.readsCache = false) :
    (dispatch env s conn c line).2.2 = (dispatch env t conn c line).2.2 := by
  unfold dispatch
  split
  · rfl
  · rfl
  · rename_i r hne hparse
    have hanswer : (handleRequest env s conn c r).2.2 = (handleRequest env t conn c r).2.2 := by
      have hreads := h r hparse
      cases r with
      | auth password => rfl
      | write cmd =>
        have hwrite := dispatchWrite_withCache t.toContext s.cache c.io c.clocks env.toServerEnv cmd
        rw [← toContext_of_shared hs] at hwrite
        simp only [handleRequest, hwrite.2]
      | sim cmd => cases hreads
      | simv cmd => cases hreads
      | info => cases hreads
      | config sub path =>
        cases sub with
        | help => rfl
        | «show» =>
          simp only [handleRequest]
          rw [(shared_respondRuntime hs (.configShow path)).2]
        | verify => rfl
      | dump sub path => simp only [handleRequest, hs]
      | debug on => rfl
      | cache sub =>
        cases sub with
        | stats => cases hreads
        | clear => exact (shared_handleCacheClear hs).2
        | enable =>
          simp only [handleRequest]
          rw [(shared_respondRuntime hs .cacheEnable).2]
        | disable =>
          simp only [handleRequest]
          rw [(shared_respondRuntime hs .cacheDisable).2]
      | set name value =>
        simp only [handleRequest]
        rw [(shared_respondRuntime hs (.set name value)).2]
      | get name =>
        simp only [handleRequest]
        rw [(shared_respondRuntime hs (.get name)).2]
      | showVariables pattern =>
        simp only [handleRequest]
        rw [(shared_respondRuntime hs (.showVariables pattern)).2]
    unfold dispatchRequest
    rw [hs]
    split
    · rfl
    · dsimp only
      rw [hanswer]

/-- **What is answered over HTTP** does not depend on the cache. -/
theorem answer_serveHttpRequest (hs : s.shared = t.shared) (c : Circumstances) {r : HttpRequest}
    (h : ∀ e, endpoint? r.method r.path = some e → e.readsCache = false) :
    (serveHttpRequest env s c r).2 = (serveHttpRequest env t c r).2 := by
  unfold serveHttpRequest
  split
  · rfl
  · rename_i e he
    have hreads := h e he
    split
    · rfl
    · cases e with
      | write route =>
        have hwrite := serveHttp_withCache t.toContext s.cache c.io c.clocks env.toSurfaceEnv true
          route (env.parseJson r.body)
        rw [← toContext_of_shared hs] at hwrite
        simp only [handleEndpoint, hwrite.2]
      | cache sub =>
        cases sub with
        | stats => cases hreads
        | clear => exact (shared_httpCacheClear hs r.body).2
        | enable =>
          simp only [handleEndpoint]
          rw [(shared_respondRuntime hs .httpCacheEnable).2]
        | disable =>
          simp only [handleEndpoint]
          rw [(shared_respondRuntime hs .httpCacheDisable).2]
      | dump sub => simp only [handleEndpoint, hs]
      | debug on => rfl
      | sim => cases hreads
      | simv => cases hreads
      | info => cases hreads
      | health => cases hreads
      | healthLive => cases hreads
      | healthReady => cases hreads
      | healthDetail => cases hreads
      | config => cases hreads
      | metrics => cases hreads

/-! ## 4. Runs -/

variable {outsider : Nat → Bool} {x y : ServedState F A κ S}

/-- A request from inside is taken in the same way. -/
theorem SameInside.respond (h : SameInside outsider x y) {a : Arrival F A S}
    (ha : a.fromOutside env.requirepass outsider = false) :
    SameInside outsider (x.respond env a).1 (y.respond env a).1 := by
  cases a with
  | line i c line =>
    have hi : outsider i = false := ha
    have hne : ∀ j, outsider j = true → j ≠ i := by
      rintro j hj rfl
      rw [hi] at hj
      cases hj
    obtain ⟨hshared, hconn⟩ := @shared_dispatch _ _ _ _ _ _ _ env _ _ h.shared (x.connections i) c
      line
    rw [h.inside i hi] at hshared hconn
    constructor
    · simpa only [ServedState.respond, h.inside i hi] using hshared
    · intro j hj
      simp only [ServedState.respond]
      rw [h.inside i hi, hconn]
      by_cases hji : j = i
      · rw [hji, Function.update_self, Function.update_self]
      · rw [Function.update_of_ne hji, Function.update_of_ne hji]
        exact h.inside j hj
    · intro j hj
      simp only [ServedState.respond]
      rw [Function.update_of_ne (hne j hj)]
      exact h.outside j hj
  | http c request => exact ⟨shared_serveHttpRequest h.shared c request, h.inside, h.outside⟩
  | decay io prune =>
    refine ⟨?_, h.inside, h.outside⟩
    simp only [ServedState.respond, ServerState.decay, h.shared]
  | snapshot job =>
    refine ⟨?_, h.inside, h.outside⟩
    simp only [ServedState.respond, h.shared]
    exact shared_finishDump h.shared _

/-- A request from outside is not noticed inside. -/
theorem SameInside.outside_respond (h : SameInside outsider x y) {a : Arrival F A S}
    (hpass : env.requirepass ≠ [])
    (hshown : ∀ i c line, a = .line i c line → ¬ ShowsPassword env.requirepass line)
    (ha : a.fromOutside env.requirepass outsider = true) :
    SameInside outsider (x.respond env a).1 y := by
  cases a with
  | line i c line =>
    have hi : outsider i = true := ha
    obtain ⟨hshared, hconn⟩ := @dispatch_outside _ _ _ _ _ env x.server _ _ hpass _ (h.outside i hi)
      c _ (hshown i c line rfl)
    have hne : ∀ j, outsider j = false → j ≠ i := by
      rintro j hj rfl
      rw [hi] at hj
      cases hj
    constructor
    · exact hshared.trans h.shared
    · intro j hj
      simp only [ServedState.respond]
      rw [Function.update_of_ne (hne j hj)]
      exact h.inside j hj
    · intro j hj
      simp only [ServedState.respond]
      by_cases hji : j = i
      · rw [hji, Function.update_self]
        exact hconn
      · rw [Function.update_of_ne hji]
        exact h.outside j hj
  | http c request =>
    have hclosed : isAuthorized env.requirepass request.authorization = false := by
      simpa only [Arrival.fromOutside, Bool.not_eq_true'] using ha
    exact ⟨(serveHttpRequest_outside c hclosed).trans h.shared, h.inside, h.outside⟩
  | decay io prune => cases ha
  | snapshot job => cases ha

/-- A request from inside that does not ask the cache is answered in the same way. -/
theorem SameInside.answer (h : SameInside outsider x y) {a : Arrival F A S}
    (ha : a.fromOutside env.requirepass outsider = false) (hreads : a.readsCache env = false) :
    (x.respond env a).2 = (y.respond env a).2 := by
  cases a with
  | line i c line =>
    have hi : outsider i = false := ha
    simp only [ServedState.respond, h.inside i hi, Reply.line.injEq]
    refine answer_dispatch h.shared _ c fun r hr => ?_
    simpa only [Arrival.readsCache, hr] using hreads
  | http c request =>
    simp only [ServedState.respond, Reply.http.injEq]
    refine answer_serveHttpRequest h.shared c fun e he => ?_
    simpa only [Arrival.readsCache, he] using hreads
  | decay io prune => rfl
  | snapshot job => rfl

/-- **Who does not know the password changes nothing.** Whatever outsiders send, between the
    requests of others and over both front ends: the data, the settings, the log and the snapshots,
    and the connections of the others, are those of the run without them; and each of the others'
    requests that does not ask the cache is answered as in that run. -/
theorem outsiders_change_nothing (env : AccessEnv F A κ S) (start : ServedState F A κ S)
    (arrivals : List (Arrival F A S)) (h : Outsiders env.requirepass outsider start arrivals) :
    let inside := arrivals.filter fun a => !a.fromOutside env.requirepass outsider
    let x := after (ServedState.respond env) start arrivals
    let y := after (ServedState.respond env) start inside
    x.server.shared = y.server.shared ∧
      (∀ i, outsider i = false → x.connections i = y.connections i) ∧
      (∀ i, outsider i = true → (x.connections i).authenticated = false) ∧
      ∀ a : Arrival F A S, a.fromOutside env.requirepass outsider = false →
        a.readsCache env = false → (x.respond env a).2 = (y.respond env a).2 := by
  intro inside x y
  have hsame : SameInside outsider x y := by
    refine after_filter ?_ ?_ ⟨rfl, fun _ _ => rfl, h.unknown⟩
    · intro s t a _ hkeep hst
      exact hst.respond (by simpa only [Bool.not_eq_true'] using hkeep)
    · intro s t a ha hkeep hst
      have hout : a.fromOutside env.requirepass outsider = true := by
        simpa only [Bool.not_eq_false'] using hkeep
      refine hst.outside_respond h.asked ?_ hout
      intro i c line heq
      rw [heq] at ha hout
      exact h.unshown i c line ha hout
  exact ⟨hsame.shared, hsame.inside, hsame.outside, fun _ ha hreads => hsame.answer ha hreads⟩

end Server

/-- The server asks for a password. -/
def guardedAccess : AccessEnv Int ListedIndex Bytes Unit :=
  { exampleAccess with requirepass := ascii "secret" }

/-- A connection that knows the password sets a vector. Another one and a request over HTTP guess,
    and would delete it. -/
def guessed : List (Arrival Int ListedIndex Unit) :=
  [.line 0 ⟨clocksAt 0, {}, {}⟩ (ascii "AUTH secret"),
    .line 1 ⟨clocksAt 1, {}, {}⟩ (ascii "AUTH guess"),
    .line 0 ⟨clocksAt 2, {}, {}⟩ (ascii "VECSET i 1"),
    .line 1 ⟨clocksAt 3, {}, {}⟩ (ascii "VECDEL i"),
    .http ⟨clocksAt 4, {}, {}⟩ ⟨.delete, ascii "/vecset", some (ascii "Bearer guess"), ascii "i"⟩]

theorem outsiders_change_nothing_guessed :
    (after (ServedState.respond guardedAccess) servedStart guessed).server.shared =
      (after (ServedState.respond guardedAccess) servedStart
        (guessed.filter fun a => !a.fromOutside guardedAccess.requirepass (· == 1))).server.shared ∧
    (after (ServedState.respond guardedAccess) servedStart
      guessed).server.shared.stores.vectorStore.ids = [ascii "i"] := by
  refine ⟨(outsiders_change_nothing guardedAccess servedStart guessed
    ⟨by decide +kernel, fun _ _ => rfl, ?_⟩).1, by decide +kernel⟩
  intro i c line hline hi hshows
  have hbehind := hshows.behind
  simp only [guessed, List.mem_cons, Arrival.line.injEq, reduceCtorEq, or_false, List.not_mem_nil]
    at hline
  rcases hline with ⟨rfl, -, rfl⟩ | ⟨rfl, -, rfl⟩ | ⟨rfl, -, rfl⟩ | ⟨rfl, -, rfl⟩
  · cases hi
  · exact absurd hbehind (by decide +kernel)
  · cases hi
  · exact absurd hbehind (by decide +kernel)

end Nvecd.Server

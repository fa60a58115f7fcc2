import Walkrie.Lifecycle.Manager

/-!
# How the daemon starts and ends

`main` acquires an event base, events on it, a thread, HTTP handles,
connections, worker processes and a PID file, and gives them back on three
different paths: when the sinks cannot be created, when a source cannot be
started, and after the event loop.  On a fourth path nobody catches an
exception, and nothing is given back.  A run of `main` is the list of what it
does to those resources, with the destructors of its local variables where C++
runs them; a ledger reads the list and notes every use of a resource at the
wrong time.  Memory, the thread and the events of `main` itself are always to
be had.
-/

namespace Walkrie
namespace Lifecycle

/-- The events of the daemon.  Those of a source are its replication socket
and its standby-status timer. -/
inductive Watch
  | sigterm
  | sigint
  | terminatePoll
  | reapTimer
  | read (source : Nat)
  | timer (source : Nat)
  deriving DecidableEq, Repr

/-- The HTTP clients of the daemon that have a handle. -/
inductive HttpHandle
  | provider
  | sink (position : Nat)
  deriving DecidableEq, Repr

inductive Effect
  | writePidFile
  | removePidFile
  | httpGlobalInit
  | httpGlobalCleanup
  | newBase
  | freeBase
  | newEvent (watch : Watch)
  | freeEvent (watch : Watch)
  | startDispatcher
  | joinDispatcher
  | openHttp (handle : HttpHandle)
  | closeHttp (handle : HttpHandle)
  | connect (source : Nat)
  | finish (source : Nat)
  | spawn (source : Nat)
  | waitForAllWorkers
  | dispatchEvents
  | flushConfirmedLsn (source : Nat)
  deriving DecidableEq, Repr

/-! ## The sinks -/

/-- What the creation of the embedding provider gives. -/
inductive ProviderRun
  | failed
  /-- With or without an HTTP handle. -/
  | made (http : Bool)
  deriving DecidableEq, Repr

/-- What a sink meets while it is created. -/
structure SinkRun where
  needsEmbeddingProvider : Bool
  /-- It has an HTTP client of its own, with a handle. -/
  http : Bool
  /-- `create_sink` returns. -/
  created : Bool
  deriving DecidableEq, Repr

/-- What the block that creates the sinks has done. -/
structure Creation where
  /-- All sinks are there. -/
  complete : Bool
  effects : List Effect
  /-- The handles that live as long as `sinks`. -/
  handles : List HttpHandle
  /-- Some sink in `sinks` shares the provider. -/
  sharesProvider : Bool
  deriving DecidableEq, Repr

/-- The loop over the sinks, up to the first that throws.  The handle of that
one is closed on the way out. -/
def createEach : Nat → List SinkRun → Creation
  | _, [] => ⟨true, [], [], false⟩
  | position, run :: runs =>
      let own := if run.http then [HttpHandle.sink position] else []
      if run.created then
        let rest := createEach (position + 1) runs
        { complete := rest.complete
          effects := own.map .openHttp ++ rest.effects
          handles := own ++ rest.handles
          sharesProvider := run.needsEmbeddingProvider || rest.sharesProvider }
      else ⟨false, own.map .openHttp ++ own.map .closeHttp, [], false⟩

/-- The `try` block of `main`.  At its end the provider is gone unless a sink
shares it. -/
def createSinks (provider : ProviderRun) (runs : List SinkRun) : Creation :=
  if runs.any SinkRun.needsEmbeddingProvider then
    match provider with
    | .failed => ⟨false, [], [], false⟩
    | .made http =>
        let own := if http then [HttpHandle.provider] else []
        let rest := createEach 1 runs
        if rest.sharesProvider then
          { rest with
            effects := own.map .openHttp ++ rest.effects
            handles := rest.handles ++ own }
        else
          { rest with
            effects := own.map .openHttp ++ rest.effects ++
              own.map .closeHttp }
  else createEach 1 runs

/-! ## One source -/

/-- How a call ends. -/
inductive Answer
  | yes
  | no
  | thrown
  deriving DecidableEq, Repr

/-- How `connect` ends: without a connection, with one but without its
backfill store, or as it should. -/
inductive Connection
  | refused
  | storeFailed
  | opened
  deriving DecidableEq, Repr

/-- The results of the calls of `register_event_loop`. -/
structure Registration where
  socket : Bool
  newRead : Bool
  addRead : Bool
  newTimer : Bool
  addTimer : Bool
  deriving DecidableEq, Repr

/-- What a source meets while it is started. -/
structure SourceRun where
  connection : Connection
  /-- `run_backfill_dump_if_required` -/
  dumps : Answer
  /-- `spawn_if_required`, which throws when it cannot look for the worker's
  binary. -/
  spawns : Option SpawnStatus
  /-- `start_streaming` -/
  streams : Bool
  registration : Registration
  deriving DecidableEq, Repr

/-- `register_event_loop`: its answer, and the events it leaves in the
source. -/
def registerEventLoop (source : Nat) (calls : Registration) :
    Bool × List Watch :=
  if !calls.socket then (false, [])
  else if !calls.newRead then (false, [])
  else if !calls.addRead then (false, [.read source])
  else if !calls.newTimer then (false, [.read source])
  else if !calls.addTimer then (false, [.read source, .timer source])
  else (true, [.read source, .timer source])

/-- What the destructor of a source finds in it. -/
structure Holding where
  source : Nat
  watches : List Watch
  connected : Bool
  deriving DecidableEq, Repr

/-- The body of the loop over the sources: whether it goes on, what it does,
and what the source holds afterwards. -/
def startSource (source : Nat) (run : SourceRun) :
    Answer × List Effect × Holding :=
  match run.connection with
  | .refused => (.no, [], ⟨source, [], false⟩)
  | .storeFailed => (.no, [.connect source], ⟨source, [], true⟩)
  | .opened =>
      match run.dumps with
      | .thrown => (.thrown, [.connect source], ⟨source, [], true⟩)
      | .no => (.no, [.connect source], ⟨source, [], true⟩)
      | .yes =>
          match run.spawns with
          | none => (.thrown, [.connect source], ⟨source, [], true⟩)
          | some status =>
              -- A worker that could not be started is logged, nothing more.
              let spawned :=
                if status = .spawned then [Effect.spawn source] else []
              if !run.streams then
                (.no, .connect source :: spawned, ⟨source, [], true⟩)
              else
                let made := registerEventLoop source run.registration
                (if made.1 then .yes else .no,
                  .connect source :: spawned ++ made.2.map .newEvent,
                  ⟨source, made.2, true⟩)

/-- The loop over the sources, up to the first that fails. -/
def startSources : Nat → List SourceRun → Answer × List Effect × List Holding
  | _, [] => (.yes, [], [])
  | source, run :: runs =>
      let first := startSource source run
      if first.1 = .yes then
        let rest := startSources (source + 1) runs
        (rest.1, first.2.1 ++ rest.2.1, first.2.2 :: rest.2.2)
      else (first.1, first.2.1, [first.2.2])

/-- `~PgReplicationSource` -/
def Holding.destroy (holding : Holding) : List Effect :=
  holding.watches.map .freeEvent ++
    if holding.connected then [.finish holding.source] else []

/-- `flush_confirmed_lsn`, which does nothing without a connection. -/
def Holding.flush (holding : Holding) : List Effect :=
  if holding.connected then [.flushConfirmedLsn holding.source] else []

/-! ## `main` -/

/-- What `main` meets. -/
structure Environment where
  /-- The usage is asked for, and nothing else is done. -/
  help : Bool
  /-- The arguments and the configuration are accepted. -/
  configured : Bool
  foreground : Bool
  pidFile : String
  /-- The PID file can be written. -/
  writable : Bool
  /-- `event_base_new` succeeds. -/
  base : Bool
  provider : ProviderRun
  sinks : List SinkRun
  sources : List SourceRun
  deriving DecidableEq, Repr

/-- The part of `daemonize` that lasts. -/
def daemonize (environment : Environment) : List Effect :=
  if environment.foreground then []
  else if environment.pidFile = "" then []
  else if environment.writable then [.writePidFile]
  else []

def removePidFile (environment : Environment) : List Effect :=
  if environment.foreground then []
  else if environment.pidFile = "" then []
  else [.removePidFile]

/-- `backfill_manager.reset()` -/
def resetManager : List Effect := [.freeEvent .reapTimer, .waitForAllWorkers]

/-- The end of the path without sinks and of the path through the event
loop. -/
def release (environment : Environment) : List Effect :=
  [.freeEvent .sigterm, .freeEvent .sigint, .freeEvent .terminatePoll,
    .freeBase, .httpGlobalCleanup] ++ removePidFile environment

/-- From `daemonize` to the dispatcher. -/
def prepare (environment : Environment) : List Effect :=
  daemonize environment ++
    [.httpGlobalInit, .newBase, .newEvent .sigterm, .newEvent .sigint,
      .newEvent .terminatePoll, .newEvent .reapTimer, .startDispatcher]

/-- The end of `main` when the sinks could not be created.  Those that were
go with the local variables. -/
def abandonSinks (environment : Environment) (handles : List HttpHandle) :
    List Effect :=
  [.joinDispatcher] ++ resetManager ++ release environment ++
    handles.map .closeHttp

/-- The end of `main` when a source could not be started.  Neither the
events of `main` nor the PID file are touched; the sinks, the sources and then
the dispatcher are destroyed with the local variables, after the base. -/
def abandonSources (holdings : List Holding) (handles : List HttpHandle) :
    List Effect :=
  resetManager ++ [.freeBase] ++ handles.map .closeHttp ++
    holdings.flatMap Holding.destroy ++ [.joinDispatcher]

/-- The end of `main` after the event loop.  The sinks are cleared last. -/
def shutdown (environment : Environment) (holdings : List Holding)
    (handles : List HttpHandle) : List Effect :=
  [.waitForAllWorkers] ++ resetManager ++ [.joinDispatcher] ++
    holdings.flatMap Holding.flush ++ holdings.flatMap Holding.destroy ++
    release environment ++ handles.map .closeHttp

/-- How `main` ends: with an exit code, or by an exception nobody catches. -/
inductive Ending
  | exit (code : Nat)
  | terminated
  deriving DecidableEq, Repr

/-- `main`: how it ends and what it does.  The first source has number
one. -/
def main (environment : Environment) : Ending × List Effect :=
  if environment.help then (.exit 0, [])
  else if !environment.configured then (.exit 1, [])
  else if !environment.base then
    (.exit 1, daemonize environment ++ [.httpGlobalInit])
  else
    let made := createSinks environment.provider environment.sinks
    if !made.complete then
      (.exit 1, prepare environment ++ made.effects ++
        abandonSinks environment made.handles)
    else
      let started := startSources 1 environment.sources
      let running := prepare environment ++ made.effects ++ started.2.1
      match started.1 with
      | .yes =>
          (.exit 0, running ++ [.dispatchEvents] ++
            shutdown environment started.2.2 made.handles)
      | .no =>
          (.exit 1, running ++ abandonSources started.2.2 made.handles)
      | .thrown => (.terminated, running)

/-! ## The ledger -/

inductive Fault
  /-- An event is freed although its base is gone. -/
  | freedAfterBase (watch : Watch)
  /-- An event is freed that does not exist. -/
  | freedUnmade (watch : Watch)
  /-- A handle is closed although the HTTP library is cleaned up. -/
  | closedAfterHttp (handle : HttpHandle)
  /-- A position is sent while the dispatcher may still confirm. -/
  | flushedEarly (source : Nat)
  /-- A position is sent without a connection. -/
  | flushedClosed (source : Nat)
  /-- A source goes away while the dispatcher may still confirm to it. -/
  | finishedEarly (source : Nat)
  deriving DecidableEq, Repr

structure Ledger where
  pidFile : Bool
  http : Bool
  base : Bool
  watches : List Watch
  /-- The thread of the dispatcher runs. -/
  thread : Bool
  handles : List HttpHandle
  connections : List Nat
  /-- Sources whose worker was not waited for. -/
  workers : List Nat
  /-- The event loop has run, so there may be jobs. -/
  dispatched : Bool
  faults : List Fault
  deriving DecidableEq, Repr

def Ledger.empty : Ledger :=
  ⟨false, false, false, [], false, [], [], [], false, []⟩

def Ledger.note (ledger : Ledger) (faults : List Fault) : Ledger :=
  { ledger with faults := ledger.faults ++ faults }

def Ledger.apply (ledger : Ledger) : Effect → Ledger
  | .writePidFile => { ledger with pidFile := true }
  | .removePidFile => { ledger with pidFile := false }
  | .httpGlobalInit => { ledger with http := true }
  | .httpGlobalCleanup => { ledger with http := false }
  | .newBase => { ledger with base := true }
  | .freeBase => { ledger with base := false }
  | .newEvent watch => { ledger with watches := ledger.watches ++ [watch] }
  | .freeEvent watch =>
      if watch ∈ ledger.watches then
        { ledger with
          watches := ledger.watches.erase watch
          faults := ledger.faults ++
            if ledger.base then [] else [.freedAfterBase watch] }
      else ledger.note [.freedUnmade watch]
  | .startDispatcher => { ledger with thread := true }
  | .joinDispatcher => { ledger with thread := false }
  | .openHttp handle =>
      { ledger with handles := ledger.handles ++ [handle] }
  | .closeHttp handle =>
      { ledger with
        handles := ledger.handles.erase handle
        faults := ledger.faults ++
          if ledger.http then [] else [.closedAfterHttp handle] }
  | .connect source =>
      { ledger with connections := ledger.connections ++ [source] }
  | .finish source =>
      { ledger with
        connections := ledger.connections.erase source
        faults := ledger.faults ++
          if ledger.thread && ledger.dispatched then [.finishedEarly source]
          else [] }
  | .spawn source => { ledger with workers := ledger.workers ++ [source] }
  | .waitForAllWorkers => { ledger with workers := [] }
  | .dispatchEvents => { ledger with dispatched := true }
  | .flushConfirmedLsn source =>
      if ledger.thread then ledger.note [.flushedEarly source]
      else if source ∈ ledger.connections then ledger
      else ledger.note [.flushedClosed source]

def Ledger.applyAll (ledger : Ledger) (effects : List Effect) : Ledger :=
  effects.foldl Ledger.apply ledger

/-- The ledger at the end of `main`. -/
def account (environment : Environment) : Ledger :=
  Ledger.empty.applyAll (main environment).2

@[simp]
theorem Ledger.applyAll_nil (ledger : Ledger) : ledger.applyAll [] = ledger :=
  rfl

@[simp]
theorem Ledger.applyAll_cons
    (ledger : Ledger)
    (effect : Effect)
    (effects : List Effect) :
    ledger.applyAll (effect :: effects) =
      (ledger.apply effect).applyAll effects :=
  rfl

@[simp]
theorem Ledger.applyAll_append
    (ledger : Ledger)
    (effects later : List Effect) :
    ledger.applyAll (effects ++ later) =
      (ledger.applyAll effects).applyAll later :=
  List.foldl_append

/-! ## Creating the sinks -/

/-- The faults of closing handles, with or without the HTTP library. -/
def closeFaults (http : Bool) (handles : List HttpHandle) : List Fault :=
  if http then [] else handles.map .closedAfterHttp

theorem closeFaults_nil (http : Bool) : closeFaults http [] = [] := by
  cases http <;> rfl

theorem closeFaults_cons
    (http : Bool)
    (handle : HttpHandle)
    (handles : List HttpHandle) :
    closeFaults http (handle :: handles) =
      (if http then [] else [.closedAfterHttp handle]) ++
        closeFaults http handles := by
  cases http <;> rfl

theorem Ledger.applyAll_openHttp (ledger : Ledger) (handles : List HttpHandle) :
    ledger.applyAll (handles.map .openHttp) =
      { ledger with handles := ledger.handles ++ handles } := by
  induction handles generalizing ledger with
  | nil => simp
  | cons handle handles inductionHypothesis =>
      simp [inductionHypothesis, Ledger.apply]

/-- Closing some of the handles leaves the others. -/
theorem Ledger.applyAll_closeHttp
    (ledger : Ledger)
    {handles kept : List HttpHandle}
    (held : ledger.handles.Perm (handles ++ kept)) :
    ∃ left : List HttpHandle, left.Perm kept ∧
      ledger.applyAll (handles.map .closeHttp) =
        { ledger with
          handles := left
          faults := ledger.faults ++ closeFaults ledger.http handles } := by
  induction handles generalizing ledger with
  | nil =>
      refine ⟨ledger.handles, held, ?_⟩
      rw [closeFaults_nil, List.append_nil]
      rfl
  | cons handle handles inductionHypothesis =>
      have others : (ledger.handles.erase handle).Perm (handles ++ kept) := by
        have erased := held.erase handle
        rwa [List.cons_append, List.erase_cons_head] at erased
      obtain ⟨left, perm, closed⟩ :=
        inductionHypothesis (ledger.apply (.closeHttp handle)) others
      refine ⟨left, perm, ?_⟩
      rw [List.map_cons, Ledger.applyAll_cons, closed, closeFaults_cons,
        ← List.append_assoc]
      rfl

/-- Closing all handles. -/
theorem Ledger.applyAll_closeAll
    (ledger : Ledger)
    {handles : List HttpHandle}
    (held : ledger.handles.Perm handles) :
    ledger.applyAll (handles.map .closeHttp) =
      { ledger with
        handles := []
        faults := ledger.faults ++ closeFaults ledger.http handles } := by
  have all : ledger.handles.Perm (handles ++ []) := by simpa using held
  obtain ⟨left, empty, closed⟩ := ledger.applyAll_closeHttp all
  rw [closed, empty.eq_nil]

theorem applyAll_createEach
    (ledger : Ledger)
    (running : ledger.http = true)
    (position : Nat)
    (runs : List SinkRun) :
    ∃ handles : List HttpHandle,
      handles.Perm (ledger.handles ++ (createEach position runs).handles) ∧
      ledger.applyAll (createEach position runs).effects =
        { ledger with handles } := by
  induction runs generalizing ledger position with
  | nil => exact ⟨ledger.handles, by simp [createEach], rfl⟩
  | cons run runs inductionHypothesis =>
      unfold createEach
      generalize (if run.http = true then [HttpHandle.sink position] else []) =
        own
      simp only
      split
      · obtain ⟨handles, perm, rest⟩ := inductionHypothesis
          { ledger with handles := ledger.handles ++ own } running
          (position + 1)
        refine ⟨handles, by simpa using perm, ?_⟩
        rw [Ledger.applyAll_append, Ledger.applyAll_openHttp, rest]
      · have ownFirst : (ledger.handles ++ own).Perm (own ++ ledger.handles) :=
          List.perm_append_comm
        obtain ⟨left, perm, closed⟩ := Ledger.applyAll_closeHttp
          { ledger with handles := ledger.handles ++ own } ownFirst
        refine ⟨left, by simpa using perm, ?_⟩
        rw [Ledger.applyAll_append, Ledger.applyAll_openHttp, closed]
        simp [closeFaults, running]

/-- Whatever the sinks meet, the ledger gains the handles they keep. -/
theorem applyAll_createSinks
    (ledger : Ledger)
    (running : ledger.http = true)
    (provider : ProviderRun)
    (runs : List SinkRun) :
    ∃ handles : List HttpHandle,
      handles.Perm (ledger.handles ++ (createSinks provider runs).handles) ∧
      ledger.applyAll (createSinks provider runs).effects =
        { ledger with handles } := by
  unfold createSinks
  split
  · cases provider with
    | failed => exact ⟨ledger.handles, by simp, rfl⟩
    | made http =>
        generalize ownDef :
          (if http = true then [HttpHandle.provider] else []) = own
        obtain ⟨handles, perm, rest⟩ := applyAll_createEach
          { ledger with handles := ledger.handles ++ own } running 1 runs
        simp only [ownDef]
        split
        · refine ⟨handles, perm.trans ?_, ?_⟩
          · rw [List.append_assoc]
            exact List.perm_append_comm.append_left _
          · rw [Ledger.applyAll_append, Ledger.applyAll_openHttp, rest]
        · have ownFirst : handles.Perm
              (own ++ (ledger.handles ++ (createEach 1 runs).handles)) := by
            refine perm.trans ?_
            rw [← List.append_assoc]
            exact List.perm_append_comm.append_right _
          obtain ⟨left, others, closed⟩ := Ledger.applyAll_closeHttp
            { ledger with handles } ownFirst
          refine ⟨left, others, ?_⟩
          rw [Ledger.applyAll_append, Ledger.applyAll_append,
            Ledger.applyAll_openHttp, rest, closed]
          simp [closeFaults, running]
  · exact applyAll_createEach ledger running 1 runs

/-! ## Starting the sources -/

/-- The events that the sources hold. -/
def heldWatches (holdings : List Holding) : List Watch :=
  holdings.flatMap Holding.watches

/-- The connections that the sources hold. -/
def heldConnections (holdings : List Holding) : List Nat :=
  holdings.flatMap fun holding =>
    if holding.connected then [holding.source] else []

/-- The ledger with more events, connections and workers. -/
def Ledger.acquire
    (ledger : Ledger)
    (holdings : List Holding)
    (workers : List Nat) : Ledger :=
  { ledger with
    watches := ledger.watches ++ heldWatches holdings
    connections := ledger.connections ++ heldConnections holdings
    workers := ledger.workers ++ workers }

theorem Ledger.acquire_acquire
    (ledger : Ledger)
    (holding : Holding)
    (holdings : List Holding)
    (workers later : List Nat) :
    (ledger.acquire [holding] workers).acquire holdings later =
      ledger.acquire (holding :: holdings) (workers ++ later) := by
  simp [Ledger.acquire, heldWatches, heldConnections]

theorem Ledger.applyAll_newEvents (ledger : Ledger) (watches : List Watch) :
    ledger.applyAll (watches.map .newEvent) =
      { ledger with watches := ledger.watches ++ watches } := by
  induction watches generalizing ledger with
  | nil => simp
  | cons watch watches inductionHypothesis =>
      simp [inductionHypothesis, Ledger.apply]

theorem applyAll_startSource
    (ledger : Ledger)
    (source : Nat)
    (run : SourceRun) :
    ∃ workers, ledger.applyAll (startSource source run).2.1 =
      ledger.acquire [(startSource source run).2.2] workers := by
  have connected : ledger.applyAll [.connect source] =
      ledger.acquire [⟨source, [], true⟩] [] := by
    simp [Ledger.acquire, heldWatches, heldConnections, Ledger.apply]
  unfold startSource
  cases run.connection with
  | refused =>
      exact ⟨[], by simp [Ledger.acquire, heldWatches, heldConnections]⟩
  | storeFailed => exact ⟨[], connected⟩
  | opened =>
      cases run.dumps with
      | thrown => exact ⟨[], connected⟩
      | no => exact ⟨[], connected⟩
      | yes =>
          cases run.spawns with
          | none => exact ⟨[], connected⟩
          | some status =>
              refine ⟨if status = .spawned then [source] else [], ?_⟩
              cases run.streams <;> by_cases spawned : status = .spawned <;>
                simp [spawned, Ledger.acquire, heldWatches, heldConnections,
                  Ledger.apply, Ledger.applyAll_newEvents]

/-- Whatever the sources meet, the ledger gains what they hold. -/
theorem applyAll_startSources
    (ledger : Ledger)
    (source : Nat)
    (runs : List SourceRun) :
    ∃ workers, ledger.applyAll (startSources source runs).2.1 =
      ledger.acquire (startSources source runs).2.2 workers := by
  induction runs generalizing ledger source with
  | nil =>
      refine ⟨[], ?_⟩
      simp [startSources, Ledger.acquire, heldWatches, heldConnections]
  | cons run runs inductionHypothesis =>
      obtain ⟨workers, first⟩ := applyAll_startSource ledger source run
      simp only [startSources]
      split
      · obtain ⟨later, rest⟩ := inductionHypothesis
          (ledger.acquire [(startSource source run).2.2] workers) (source + 1)
        refine ⟨workers ++ later, ?_⟩
        rw [Ledger.applyAll_append, first, rest, Ledger.acquire_acquire]
      · exact ⟨workers, first⟩

/-- An event of a source. -/
def Watch.isSource : Watch → Bool
  | .read _ | .timer _ => true
  | _ => false

/-- The events of `main` itself are none of a source's. -/
theorem notMem_ownWatches_of_isSource
    {watch : Watch}
    (isSource : watch.isSource = true) :
    watch ∉ [Watch.sigterm, .sigint, .terminatePoll] := by
  cases watch <;> simp_all [Watch.isSource]

theorem isSource_of_registerEventLoop
    (source : Nat)
    (calls : Registration) :
    ∀ watch ∈ (registerEventLoop source calls).2,
      watch.isSource = true := by
  unfold registerEventLoop
  split_ifs <;> simp [Watch.isSource]

theorem isSource_of_startSource
    (source : Nat)
    (run : SourceRun) :
    ∀ watch ∈ (startSource source run).2.2.watches,
      watch.isSource = true := by
  unfold startSource
  cases run.connection with
  | refused => simp
  | storeFailed => simp
  | opened =>
      cases run.dumps with
      | thrown => simp
      | no => simp
      | yes =>
          cases run.spawns with
          | none => simp
          | some status =>
              cases run.streams with
              | false => simp
              | true => exact isSource_of_registerEventLoop source _

theorem isSource_of_startSources
    (source : Nat)
    (runs : List SourceRun) :
    ∀ watch ∈ heldWatches (startSources source runs).2.2,
      watch.isSource = true := by
  induction runs generalizing source with
  | nil => simp [startSources, heldWatches]
  | cons run runs inductionHypothesis =>
      intro watch member
      simp only [startSources] at member
      split at member
      · simp only [heldWatches, List.flatMap_cons, List.mem_append] at member
        obtain member | member := member
        · exact isSource_of_startSource source run watch member
        · exact inductionHypothesis (source + 1) watch member
      · simp only [heldWatches, List.flatMap_cons, List.flatMap_nil,
          List.append_nil] at member
        exact isSource_of_startSource source run watch member

/-! ## Destroying the sources -/

/-- The faults of freeing events, with or without their base. -/
def freeFaults (base : Bool) (watches : List Watch) : List Fault :=
  if base then [] else watches.map .freedAfterBase

theorem freeFaults_append (base : Bool) (watches later : List Watch) :
    freeFaults base (watches ++ later) =
      freeFaults base watches ++ freeFaults base later := by
  cases base <;> simp [freeFaults]

/-- Freeing the events that stand behind others. -/
theorem Ledger.applyAll_freeEvents
    (ledger : Ledger)
    (kept watches later : List Watch)
    (held : ledger.watches = kept ++ (watches ++ later))
    (apart : ∀ watch ∈ watches, watch ∉ kept) :
    ledger.applyAll (watches.map .freeEvent) =
      { ledger with
        watches := kept ++ later
        faults := ledger.faults ++ freeFaults ledger.base watches } := by
  induction watches generalizing ledger with
  | nil =>
      obtain ⟨⟩ := ledger
      simp_all [freeFaults]
  | cons watch watches inductionHypothesis =>
      have unkept : watch ∉ kept := apart watch List.mem_cons_self
      have member : watch ∈ ledger.watches := by simp [held]
      have erased : ledger.watches.erase watch =
          kept ++ (watches ++ later) := by
        rw [held, List.erase_append_right _ unkept, List.cons_append,
          List.erase_cons_head]
      rw [List.map_cons, Ledger.applyAll_cons]
      simp only [Ledger.apply, if_pos member]
      rw [inductionHypothesis _ erased fun other otherMember =>
        apart other (List.mem_cons_of_mem watch otherMember)]
      cases ledger.base <;> simp [freeFaults]

theorem Ledger.applyAll_destroy
    (ledger : Ledger)
    (kept : List Watch)
    (holdings : List Holding)
    (held : ledger.watches = kept ++ heldWatches holdings)
    (apart : ∀ watch ∈ heldWatches holdings, watch ∉ kept)
    (connected : ledger.connections = heldConnections holdings)
    (quiet : (ledger.thread && ledger.dispatched) = false) :
    ledger.applyAll (holdings.flatMap Holding.destroy) =
      { ledger with
        watches := kept
        connections := []
        faults := ledger.faults ++
          freeFaults ledger.base (heldWatches holdings) } := by
  induction holdings generalizing ledger with
  | nil =>
      obtain ⟨⟩ := ledger
      simp_all [heldWatches, heldConnections, freeFaults]
  | cons holding holdings inductionHypothesis =>
      have own : ∀ watch ∈ holding.watches, watch ∉ kept :=
        fun watch member => apart watch
          (by simp [heldWatches, member])
      have others : ∀ watch ∈ heldWatches holdings, watch ∉ kept :=
        fun watch member => apart watch (by
          simp only [heldWatches, List.flatMap_cons, List.mem_append]
          exact .inr member)
      have heldFirst : ledger.watches =
          kept ++ (holding.watches ++ heldWatches holdings) := held
      have freed := ledger.applyAll_freeEvents kept holding.watches
        (heldWatches holdings) heldFirst own
      have split : heldWatches (holding :: holdings) =
          holding.watches ++ heldWatches holdings := rfl
      rw [List.flatMap_cons, Ledger.applyAll_append, Holding.destroy,
        Ledger.applyAll_append, freed, split, freeFaults_append]
      cases open_ : holding.connected with
      | false =>
          simp only [Bool.false_eq_true, if_false, Ledger.applyAll_nil]
          refine (inductionHypothesis _ rfl others ?_ ?_).trans ?_
          · simpa [heldConnections, open_] using connected
          · exact quiet
          · simp
      | true =>
          simp only [if_true, Ledger.applyAll_cons, Ledger.applyAll_nil,
            Ledger.apply, quiet]
          refine (inductionHypothesis _ rfl others ?_ ?_).trans ?_
          · simp [connected, heldConnections, open_]
          · exact quiet
          · simp

/-- Every position is sent over an open connection, once the dispatcher has
ended. -/
theorem Ledger.applyAll_flush
    (ledger : Ledger)
    (holdings : List Holding)
    (connected : ∀ source ∈ heldConnections holdings,
      source ∈ ledger.connections)
    (joined : ledger.thread = false) :
    ledger.applyAll (holdings.flatMap Holding.flush) = ledger := by
  induction holdings with
  | nil => rfl
  | cons holding holdings inductionHypothesis =>
      have rest := inductionHypothesis fun source member =>
        connected source (by
          simp only [heldConnections, List.flatMap_cons, List.mem_append]
          exact .inr member)
      rw [List.flatMap_cons, Ledger.applyAll_append]
      cases open_ : holding.connected with
      | false => simpa [Holding.flush, open_] using rest
      | true =>
          have member : holding.source ∈ ledger.connections :=
            connected _ (by simp [heldConnections, open_])
          simpa [Holding.flush, open_, Ledger.apply, joined, member] using rest

/-! ## Which sinks keep a handle -/

/-- The provider is there if a sink needs it. -/
def ProviderRun.Serves (provider : ProviderRun) (runs : List SinkRun) : Prop :=
  (∃ run ∈ runs, run.needsEmbeddingProvider = true) → provider ≠ .failed

/-- Some sink is created that has an HTTP handle of its own or shares that of
the provider. -/
def KeepsHandle (provider : ProviderRun) (runs : List SinkRun) : Prop :=
  provider.Serves runs ∧
    ∃ run ∈ runs.takeWhile SinkRun.created, run.http = true ∨
      run.needsEmbeddingProvider = true ∧ provider = .made true

theorem createEach_complete_iff (position : Nat) (runs : List SinkRun) :
    (createEach position runs).complete = true ↔
      ∀ run ∈ runs, run.created = true := by
  induction runs generalizing position with
  | nil => simp [createEach]
  | cons run runs inductionHypothesis =>
      unfold createEach
      cases created : run.created with
      | false => simp [created]
      | true => simp [created, inductionHypothesis]

theorem createEach_keeps_iff (position : Nat) (runs : List SinkRun) :
    ((createEach position runs).handles ≠ [] ↔
        ∃ run ∈ runs.takeWhile SinkRun.created, run.http = true) ∧
      ((createEach position runs).sharesProvider = true ↔
        ∃ run ∈ runs.takeWhile SinkRun.created,
          run.needsEmbeddingProvider = true) := by
  induction runs generalizing position with
  | nil => simp [createEach]
  | cons run runs inductionHypothesis =>
      obtain ⟨handles, shares⟩ := inductionHypothesis (position + 1)
      unfold createEach
      cases created : run.created with
      | false => simp [created]
      | true =>
          rw [List.takeWhile_cons_of_pos created]
          simp only [if_true, List.exists_mem_cons_iff, ← handles, ← shares]
          cases run.http <;> simp

theorem createSinks_complete_iff
    (provider : ProviderRun)
    (runs : List SinkRun) :
    (createSinks provider runs).complete = true ↔
      provider.Serves runs ∧ ∀ run ∈ runs, run.created = true := by
  unfold createSinks ProviderRun.Serves
  rw [← createEach_complete_iff 1]
  split <;> rename_i needed
  · rw [List.any_eq_true] at needed
    cases provider with
    | failed => simp [needed]
    | made http =>
        simp only
        split <;> simp
  · simp only [List.any_eq_true] at needed
    simp [needed]

theorem createSinks_handles_iff
    (provider : ProviderRun)
    (runs : List SinkRun) :
    (createSinks provider runs).handles ≠ [] ↔ KeepsHandle provider runs := by
  obtain ⟨handles, shares⟩ := createEach_keeps_iff 1 runs
  unfold createSinks KeepsHandle ProviderRun.Serves
  split <;> rename_i needed
  · rw [List.any_eq_true] at needed
    cases provider with
    | failed => simp [needed]
    | made http =>
        have parts : (∃ run ∈ runs.takeWhile SinkRun.created,
            run.http = true ∨ run.needsEmbeddingProvider = true ∧
              ProviderRun.made http = .made true) ↔
            (createEach 1 runs).handles ≠ [] ∨
              (createEach 1 runs).sharesProvider = true ∧ http = true := by
          rw [handles, shares]
          simp only [ProviderRun.made.injEq]
          grind
        rw [parts]
        simp only
        cases http <;> cases (createEach 1 runs).sharesProvider <;> simp
  · have unneeded : ∀ run ∈ runs.takeWhile SinkRun.created,
        run.needsEmbeddingProvider ≠ true := fun run member needs =>
      needed (List.any_eq_true.mpr
        ⟨run, (List.takeWhile_sublist _).subset member, needs⟩)
    rw [handles]
    simp only [List.any_eq_true] at needed
    simp only [needed, false_implies, true_and]
    grind

/-! ## The ends of `main` -/

/-- The PID file is written. -/
def Environment.writesPidFile (environment : Environment) : Bool :=
  !environment.foreground && environment.pidFile != "" &&
    environment.writable

theorem applyAll_daemonize (environment : Environment) :
    Ledger.empty.applyAll (daemonize environment) =
      { Ledger.empty with pidFile := environment.writesPidFile } := by
  unfold daemonize Environment.writesPidFile
  split_ifs <;> simp_all [Ledger.apply, Ledger.empty]

/-- The ledger when the sinks have these handles. -/
def prepared (environment : Environment) (handles : List HttpHandle) :
    Ledger :=
  { Ledger.empty with
    pidFile := environment.writesPidFile
    http := true
    base := true
    watches := [.sigterm, .sigint, .terminatePoll, .reapTimer]
    thread := true
    handles }

theorem applyAll_prepare (environment : Environment) :
    Ledger.empty.applyAll (prepare environment) = prepared environment [] := by
  rw [prepare, Ledger.applyAll_append, applyAll_daemonize]
  rfl

/-- The sinks as `main` creates them. -/
def Environment.creation (environment : Environment) : Creation :=
  createSinks environment.provider environment.sinks

/-- The ledger when the sinks are created, as far as they are. -/
theorem applyAll_creation (environment : Environment) :
    ∃ handles : List HttpHandle,
      handles.Perm environment.creation.handles ∧
      Ledger.empty.applyAll
          (prepare environment ++ environment.creation.effects) =
        prepared environment handles := by
  obtain ⟨handles, perm, created⟩ := applyAll_createSinks
    (prepared environment []) rfl environment.provider environment.sinks
  refine ⟨handles, perm, ?_⟩
  rw [Ledger.applyAll_append, applyAll_prepare]
  exact created

/-- Only the PID file of a daemon is left to remove. -/
theorem applyAll_removePidFile
    (environment : Environment)
    (ledger : Ledger)
    (written : ledger.pidFile = environment.writesPidFile) :
    ledger.applyAll (removePidFile environment) =
      { ledger with pidFile := false } := by
  obtain ⟨⟩ := ledger
  unfold removePidFile Environment.writesPidFile at *
  split_ifs <;> simp_all [Ledger.apply]

theorem applyAll_release
    (environment : Environment)
    (ledger : Ledger)
    (written : ledger.pidFile = environment.writesPidFile)
    (held : ledger.watches = [.sigterm, .sigint, .terminatePoll])
    (based : ledger.base = true) :
    ledger.applyAll (release environment) =
      { ledger with
        pidFile := false
        http := false
        base := false
        watches := [] } := by
  rw [release, Ledger.applyAll_append]
  rw [applyAll_removePidFile environment]
  · simp [Ledger.apply, held, based]
  · simpa [Ledger.apply, held, based] using written

section Ends

variable (environment : Environment)
variable {handles kept : List HttpHandle}

/-- The ledger at the end when the sinks could not be created. -/
theorem applyAll_abandonSinks
    (held : handles.Perm kept) :
    (prepared environment handles).applyAll (abandonSinks environment kept) =
      { Ledger.empty with faults := kept.map .closedAfterHttp } := by
  rw [abandonSinks, Ledger.applyAll_append, Ledger.applyAll_append,
    applyAll_release environment]
  · rw [Ledger.applyAll_closeAll _ held]
    simp [resetManager, Ledger.apply, prepared, Ledger.empty, closeFaults]
  · simp [resetManager, Ledger.apply, prepared]
  · simp [resetManager, Ledger.apply, prepared]
  · simp [resetManager, Ledger.apply, prepared]

variable {holdings : List Holding}
variable (workers : List Nat)

/-- The ledger at the end when a source could not be started. -/
theorem applyAll_abandonSources
    (held : handles.Perm kept)
    (sourcesOnly : ∀ watch ∈ heldWatches holdings, watch.isSource = true) :
    ((prepared environment handles).acquire holdings workers).applyAll
        (abandonSources holdings kept) =
      { Ledger.empty with
        pidFile := environment.writesPidFile
        http := true
        watches := [.sigterm, .sigint, .terminatePoll]
        faults := (heldWatches holdings).map .freedAfterBase } := by
  simp only [abandonSources, resetManager, Ledger.applyAll_append]
  rw [Ledger.applyAll_closeAll _ held,
    Ledger.applyAll_destroy _ [.sigterm, .sigint, .terminatePoll]]
  · simp [Ledger.apply, Ledger.acquire, prepared, Ledger.empty, freeFaults,
      closeFaults]
  · simp [Ledger.apply, Ledger.acquire, prepared, Ledger.empty]
  · exact fun watch member =>
      notMem_ownWatches_of_isSource (sourcesOnly watch member)
  · simp [Ledger.apply, Ledger.acquire, prepared, Ledger.empty]
  · simp [Ledger.apply, Ledger.acquire, prepared, Ledger.empty]

/-- The ledger at the end after the event loop. -/
theorem applyAll_shutdown
    (held : handles.Perm kept)
    (sourcesOnly : ∀ watch ∈ heldWatches holdings, watch.isSource = true) :
    (((prepared environment handles).acquire holdings workers).apply
        .dispatchEvents).applyAll (shutdown environment holdings kept) =
      { Ledger.empty with
        dispatched := true
        faults := kept.map .closedAfterHttp } := by
  simp only [shutdown, resetManager, Ledger.applyAll_append]
  rw [Ledger.applyAll_flush]
  · rw [Ledger.applyAll_destroy _ [.sigterm, .sigint, .terminatePoll]]
    · rw [applyAll_release environment]
      · rw [Ledger.applyAll_closeAll _ held]
        simp [Ledger.apply, Ledger.acquire, prepared, Ledger.empty,
          freeFaults, closeFaults]
      · simp [Ledger.apply, Ledger.acquire, prepared, Ledger.empty]
      · rfl
      · simp [Ledger.apply, Ledger.acquire, prepared, Ledger.empty]
    · simp [Ledger.apply, Ledger.acquire, prepared, Ledger.empty]
    · exact fun watch member =>
        notMem_ownWatches_of_isSource (sourcesOnly watch member)
    · simp [Ledger.apply, Ledger.acquire, prepared, Ledger.empty]
    · simp [Ledger.apply, Ledger.acquire, prepared, Ledger.empty]
  · simp [Ledger.apply, Ledger.acquire, prepared, Ledger.empty]
  · simp [Ledger.apply, Ledger.acquire, prepared, Ledger.empty]

end Ends

/-- The arguments, the configuration and the base are there. -/
def Environment.ReachesSinks (environment : Environment) : Prop :=
  environment.help = false ∧ environment.configured = true ∧
    environment.base = true

/-- The provider, if it is needed, and all sinks can be created. -/
def Environment.MakesSinks (environment : Environment) : Prop :=
  environment.provider.Serves environment.sinks ∧
    ∀ run ∈ environment.sinks, run.created = true

/-- The sinks are there as well. -/
def Environment.ReachesSources (environment : Environment) : Prop :=
  environment.ReachesSinks ∧ environment.MakesSinks

theorem Environment.complete_iff (environment : Environment) :
    environment.creation.complete = true ↔ environment.MakesSinks :=
  createSinks_complete_iff environment.provider environment.sinks

/-- How `main` ends, and the ledger then, on each of its paths. -/
inductive Environment.Ends (environment : Environment) : Ending → Ledger → Prop
  | usage
      (help : environment.help = true) :
      environment.Ends (.exit 0) .empty
  | unconfigured
      (help : environment.help = false)
      (unconfigured : environment.configured = false) :
      environment.Ends (.exit 1) .empty
  | baseless
      (help : environment.help = false)
      (configured : environment.configured = true)
      (baseless : environment.base = false) :
      environment.Ends (.exit 1)
        { Ledger.empty with
          pidFile := environment.writesPidFile, http := true }
  | sinkless
      (reaches : environment.ReachesSinks)
      (sinkless : ¬environment.MakesSinks) :
      environment.Ends (.exit 1)
        { Ledger.empty with
          faults := environment.creation.handles.map .closedAfterHttp }
  | stopped
      (reaches : environment.ReachesSources)
      (started : (startSources 1 environment.sources).1 = .yes) :
      environment.Ends (.exit 0)
        { Ledger.empty with
          dispatched := true
          faults := environment.creation.handles.map .closedAfterHttp }
  | sourceless
      (reaches : environment.ReachesSources)
      (failed : (startSources 1 environment.sources).1 = .no) :
      environment.Ends (.exit 1)
        { Ledger.empty with
          pidFile := environment.writesPidFile
          http := true
          watches := [.sigterm, .sigint, .terminatePoll]
          faults := (heldWatches
            (startSources 1 environment.sources).2.2).map .freedAfterBase }
  | terminated
      (reaches : environment.ReachesSources)
      (thrown : (startSources 1 environment.sources).1 = .thrown)
      (handles : List HttpHandle)
      (workers : List Nat) :
      environment.Ends .terminated
        ((prepared environment handles).acquire
          (startSources 1 environment.sources).2.2 workers)

/-- The paths of `main` once the sinks are there. -/
theorem ends_main_of_sources
    {environment : Environment}
    (reaches : environment.ReachesSources) :
    environment.Ends (main environment).1 (account environment) := by
  obtain ⟨⟨help, configured, base⟩, makes⟩ := reaches
  have made : (createSinks environment.provider environment.sinks).complete =
      true := environment.complete_iff.mpr makes
  have sourcesOnly := isSource_of_startSources 1 environment.sources
  obtain ⟨handles, held, created⟩ := applyAll_creation environment
  obtain ⟨workers, started⟩ := applyAll_startSources
    (prepared environment handles) 1 environment.sources
  unfold account
  cases answer : (startSources 1 environment.sources).1 with
  | yes =>
      have path : main environment =
          (.exit 0, prepare environment ++ environment.creation.effects ++
            (startSources 1 environment.sources).2.1 ++ [.dispatchEvents] ++
            shutdown environment (startSources 1 environment.sources).2.2
              environment.creation.handles) := by
        simp [main, help, configured, base, made, answer, Environment.creation]
      rw [path, Ledger.applyAll_append, Ledger.applyAll_append,
        Ledger.applyAll_append, created, started, Ledger.applyAll_cons,
        Ledger.applyAll_nil,
        applyAll_shutdown environment workers held sourcesOnly]
      exact .stopped ⟨⟨help, configured, base⟩, makes⟩ answer
  | no =>
      have path : main environment =
          (.exit 1, prepare environment ++ environment.creation.effects ++
            (startSources 1 environment.sources).2.1 ++
            abandonSources (startSources 1 environment.sources).2.2
              environment.creation.handles) := by
        simp [main, help, configured, base, made, answer, Environment.creation]
      rw [path, Ledger.applyAll_append, Ledger.applyAll_append, created,
        started, applyAll_abandonSources environment workers held sourcesOnly]
      exact .sourceless ⟨⟨help, configured, base⟩, makes⟩ answer
  | thrown =>
      have path : main environment =
          (.terminated, prepare environment ++
            environment.creation.effects ++
            (startSources 1 environment.sources).2.1) := by
        simp [main, help, configured, base, made, answer, Environment.creation]
      rw [path, Ledger.applyAll_append, created, started]
      exact .terminated ⟨⟨help, configured, base⟩, makes⟩ answer handles
        workers

/-- The paths of `main` once there is a base. -/
theorem ends_main_of_sinks
    {environment : Environment}
    (reaches : environment.ReachesSinks) :
    environment.Ends (main environment).1 (account environment) := by
  by_cases makes : environment.MakesSinks
  · exact ends_main_of_sources ⟨reaches, makes⟩
  · obtain ⟨help, configured, base⟩ := reaches
    have missing : (createSinks environment.provider
        environment.sinks).complete = false := by
      rw [← Bool.not_eq_true]
      exact mt environment.complete_iff.mp makes
    have path : main environment =
        (.exit 1, prepare environment ++ environment.creation.effects ++
          abandonSinks environment environment.creation.handles) := by
      simp [main, help, configured, base, missing, Environment.creation]
    obtain ⟨handles, held, created⟩ := applyAll_creation environment
    rw [account, path, Ledger.applyAll_append, created,
      applyAll_abandonSinks environment held]
    exact .sinkless ⟨help, configured, base⟩ makes

theorem ends_main (environment : Environment) :
    environment.Ends (main environment).1 (account environment) := by
  cases help : environment.help with
  | true =>
      have path : main environment = (.exit 0, []) := by simp [main, help]
      rw [account, path]
      exact .usage help
  | false =>
      cases configured : environment.configured with
      | false =>
          have path : main environment = (.exit 1, []) := by
            simp [main, help, configured]
          rw [account, path]
          exact .unconfigured help configured
      | true =>
          cases base : environment.base with
          | false =>
              have path : main environment =
                  (.exit 1, daemonize environment ++ [.httpGlobalInit]) := by
                simp [main, help, configured, base]
              rw [account, path, Ledger.applyAll_append, applyAll_daemonize]
              exact .baseless help configured base
          | true =>
              exact ends_main_of_sinks ⟨help, configured, base⟩

/-! ## Which sources start -/

/-- Everything a source needs succeeds. -/
def SourceRun.Starts (run : SourceRun) : Prop :=
  run.connection = .opened ∧ run.dumps = .yes ∧ run.spawns ≠ none ∧
    run.streams = true ∧ run.registration = ⟨true, true, true, true, true⟩

/-- The dump or the start of the worker throws. -/
def SourceRun.Throws (run : SourceRun) : Prop :=
  run.connection = .opened ∧
    (run.dumps = .thrown ∨ run.dumps = .yes ∧ run.spawns = none)

/-- The source gets as far as to create its first event. -/
def SourceRun.MakesEvent (run : SourceRun) : Prop :=
  run.connection = .opened ∧ run.dumps = .yes ∧ run.spawns ≠ none ∧
    run.streams = true ∧ run.registration.socket = true ∧
    run.registration.newRead = true

theorem SourceRun.Starts.makesEvent
    {run : SourceRun}
    (starts : run.Starts) :
    run.MakesEvent := by
  obtain ⟨opened, dumps, spawns, streams, registered⟩ := starts
  exact ⟨opened, dumps, spawns, streams, by rw [registered],
    by rw [registered]⟩

theorem registerEventLoop_ok_iff (source : Nat) (calls : Registration) :
    (registerEventLoop source calls).1 = true ↔
      calls = ⟨true, true, true, true, true⟩ := by
  obtain ⟨socket, newRead, addRead, newTimer, addTimer⟩ := calls
  cases socket <;> cases newRead <;> cases addRead <;> cases newTimer <;>
    cases addTimer <;> simp [registerEventLoop]

theorem registerEventLoop_watches_iff (source : Nat) (calls : Registration) :
    (registerEventLoop source calls).2 ≠ [] ↔
      calls.socket = true ∧ calls.newRead = true := by
  unfold registerEventLoop
  split_ifs <;> simp_all

/-- How the start of a source ends. -/
theorem startSource_answer (source : Nat) (run : SourceRun) :
    ((startSource source run).1 = .yes ↔ run.Starts) ∧
      ((startSource source run).1 = .thrown ↔ run.Throws) := by
  have registered := registerEventLoop_ok_iff source run.registration
  obtain ⟨connection, dumps, spawns, streams, registration⟩ := run
  unfold startSource SourceRun.Starts SourceRun.Throws
  cases connection with
  | refused => simp
  | storeFailed => simp
  | opened =>
      cases dumps with
      | thrown => simp
      | no => simp
      | yes =>
          cases spawns with
          | none => simp
          | some status =>
              cases streams with
              | false => simp
              | true =>
                  simp only at registered
                  cases made : (registerEventLoop source registration).1 <;>
                    simp_all

theorem startSource_watches_iff (source : Nat) (run : SourceRun) :
    (startSource source run).2.2.watches ≠ [] ↔ run.MakesEvent := by
  have made := registerEventLoop_watches_iff source run.registration
  obtain ⟨connection, dumps, spawns, streams, registration⟩ := run
  unfold startSource SourceRun.MakesEvent
  cases connection with
  | refused => simp
  | storeFailed => simp
  | opened =>
      cases dumps with
      | thrown => simp
      | no => simp
      | yes =>
          cases spawns with
          | none => simp
          | some status => cases streams <;> simp_all

/-- The sources before this one start, and this one does not. -/
def Stops (runs earlier : List SourceRun) (failing : SourceRun) : Prop :=
  ∃ later, runs = earlier ++ failing :: later ∧
    (∀ run ∈ earlier, run.Starts) ∧ ¬failing.Starts

/-- Unless all sources start, there is a first that does not. -/
theorem starts_or_stops (runs : List SourceRun) :
    (∀ run ∈ runs, run.Starts) ∨
      ∃ earlier failing, Stops runs earlier failing := by
  induction runs with
  | nil => simp
  | cons run runs inductionHypothesis =>
      by_cases starts : run.Starts
      · rcases inductionHypothesis with all | ⟨earlier, failing, later, split,
          fine, fails⟩
        · exact .inl (List.forall_mem_cons.mpr ⟨starts, all⟩)
        · exact .inr ⟨run :: earlier, failing, later, by rw [split]; rfl,
            List.forall_mem_cons.mpr ⟨starts, fine⟩, fails⟩
      · exact .inr ⟨[], run, runs, rfl, by simp, starts⟩

theorem startSources_of_starts
    {runs : List SourceRun}
    (starts : ∀ run ∈ runs, run.Starts)
    (source : Nat) :
    (startSources source runs).1 = .yes := by
  induction runs generalizing source with
  | nil => rfl
  | cons run runs inductionHypothesis =>
      rw [List.forall_mem_cons] at starts
      simp only [startSources,
        if_pos ((startSource_answer source run).1.mpr starts.1)]
      exact inductionHypothesis starts.2 (source + 1)

/-- The sources end as the first one that does not start.  They hold an event
if an earlier source does, or this one got to its first. -/
theorem startSources_of_stops
    {runs earlier : List SourceRun}
    {failing : SourceRun}
    (stops : Stops runs earlier failing)
    (source : Nat) :
    ((startSources source runs).1 = .thrown ↔ failing.Throws) ∧
      (startSources source runs).1 ≠ .yes ∧
      (heldWatches (startSources source runs).2.2 ≠ [] ↔
        earlier ≠ [] ∨ failing.MakesEvent) := by
  obtain ⟨later, rfl, fine, fails⟩ := stops
  induction earlier generalizing source with
  | nil =>
      have failed : (startSource source failing).1 ≠ .yes :=
        mt (startSource_answer source failing).1.mp fails
      simp only [List.nil_append, startSources, if_neg failed]
      refine ⟨(startSource_answer source failing).2, failed, ?_⟩
      simp [heldWatches, ← startSource_watches_iff source failing]
  | cons run earlier inductionHypothesis =>
      rw [List.forall_mem_cons] at fine
      simp only [List.cons_append, startSources,
        if_pos ((startSource_answer source run).1.mpr fine.1)]
      obtain ⟨throws, failed, _⟩ := inductionHypothesis (source + 1) fine.2
      refine ⟨throws, failed, ?_⟩
      have held := (startSource_watches_iff source run).mpr fine.1.makesEvent
      simp [heldWatches, held]

theorem startSources_yes_iff (source : Nat) (runs : List SourceRun) :
    (startSources source runs).1 = .yes ↔ ∀ run ∈ runs, run.Starts := by
  refine ⟨fun started => ?_, fun starts => startSources_of_starts starts source⟩
  rcases starts_or_stops runs with all | ⟨earlier, failing, stops⟩
  · exact all
  · exact absurd started (startSources_of_stops stops source).2.1

/-- The first source that does not start reports it, and some event exists by
then: an earlier source has its own, or the failing one got to its first. -/
def FailsHoldingEvents (runs : List SourceRun) : Prop :=
  ∃ earlier failing, Stops runs earlier failing ∧ ¬failing.Throws ∧
    (earlier ≠ [] ∨ failing.MakesEvent)

theorem startSources_holding_iff (source : Nat) (runs : List SourceRun) :
    ((startSources source runs).1 = .no ∧
        heldWatches (startSources source runs).2.2 ≠ []) ↔
      FailsHoldingEvents runs := by
  constructor
  · rintro ⟨failed, held⟩
    rcases starts_or_stops runs with all | ⟨earlier, failing, stops⟩
    · rw [startSources_of_starts all] at failed
      cases failed
    · obtain ⟨throws, _, holds⟩ := startSources_of_stops stops source
      refine ⟨earlier, failing, stops, fun thrown => ?_, holds.mp held⟩
      rw [throws.mpr thrown] at failed
      cases failed
  · rintro ⟨earlier, failing, stops, reports, held⟩
    obtain ⟨throws, stopped, holds⟩ := startSources_of_stops stops source
    refine ⟨?_, holds.mpr held⟩
    cases answer : (startSources source runs).1 with
    | yes => exact absurd answer stopped
    | no => rfl
    | thrown => exact absurd (throws.mp answer) reports

/-! ## Faults and leftovers -/

/-- The HTTP library is cleaned up: the sinks could not be created, or every
source was started. -/
def Environment.CleansUpHttp (environment : Environment) : Prop :=
  environment.ReachesSinks ∧
    (environment.MakesSinks → ∀ run ∈ environment.sources, run.Starts)

/-- `main` uses a resource at the wrong time exactly in two situations.  The
HTTP library is cleaned up while a sink keeps a handle: the sinks are destroyed
after it.  Or a source cannot be started while a source holds an event: the
sources are then destroyed after the base, and every event they hold is freed
after it.  No other use is ever wrong: no event is freed twice, and positions
are sent over open connections after the dispatcher has ended. -/
theorem faults_iff (environment : Environment) :
    ((account environment).faults ≠ [] ↔
        (environment.CleansUpHttp ∧
          KeepsHandle environment.provider environment.sinks) ∨
        (environment.ReachesSources ∧
          FailsHoldingEvents environment.sources)) ∧
      ∀ fault ∈ (account environment).faults,
        (∃ handle, fault = .closedAfterHttp handle) ∨
          ∃ watch, watch.isSource = true ∧ fault = .freedAfterBase watch := by
  have keeps : environment.creation.handles ≠ [] ↔
      KeepsHandle environment.provider environment.sinks :=
    createSinks_handles_iff environment.provider environment.sinks
  have started := startSources_yes_iff 1 environment.sources
  have holding := startSources_holding_iff 1 environment.sources
  have sourcesOnly := isSource_of_startSources 1 environment.sources
  unfold Environment.CleansUpHttp
  rw [← keeps, ← holding, ← started]
  have ends := ends_main environment
  generalize (main environment).1 = ending at ends
  generalize account environment = ledger at ends ⊢
  cases ends with
  | usage help =>
      simp [Environment.ReachesSources, Environment.ReachesSinks, help,
        Ledger.empty]
  | unconfigured help unconfigured =>
      simp [Environment.ReachesSources, Environment.ReachesSinks, unconfigured,
        Ledger.empty]
  | baseless help configured baseless =>
      simp [Environment.ReachesSources, Environment.ReachesSinks, baseless,
        Ledger.empty]
  | sinkless reaches sinkless =>
      simp [Environment.ReachesSources, reaches, sinkless]
  | stopped reaches answer => simp [answer, reaches.1]
  | sourceless reaches answer =>
      refine ⟨by simp [answer, reaches, reaches.2], ?_⟩
      intro fault member
      obtain ⟨watch, held, rfl⟩ := List.mem_map.mp member
      exact .inr ⟨watch, sourcesOnly watch held, rfl⟩
  | terminated reaches answer handles workers =>
      simp [answer, reaches.2, prepared, Ledger.acquire, Ledger.empty]

/-- A sink with an HTTP handle, after an orderly shutdown. -/
example :
    (account ⟨false, true, true, "", true, true, .made false,
      [⟨true, true, true⟩], []⟩).faults =
      [.closedAfterHttp (.sink 1)] := by
  decide

/-- The second of two sources refuses the connection: both events of the
first are freed after the base. -/
example :
    (account ⟨false, true, true, "", true, true, .made true,
      [⟨true, false, true⟩],
      [⟨.opened, .yes, some .noPendingWork, true,
          ⟨true, true, true, true, true⟩⟩,
        ⟨.refused, .yes, some .noPendingWork, true,
          ⟨true, true, true, true, true⟩⟩]⟩).faults =
      [.freedAfterBase (.read 1), .freedAfterBase (.timer 1)] := by
  decide

end Lifecycle
end Walkrie

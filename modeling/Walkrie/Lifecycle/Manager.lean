import Walkrie.Library.Transition

/-!
# The backfill workers of the daemon

`BackfillManager` forks a worker for a source, keeps its process id, and
learns from the kernel when it has ended: without waiting, from a timer, or
waiting for all of them at the end.  The children that the kernel has not
handed over yet are part of the state.  Every worker that was started is
reported exactly once, with the code it ended with, and
`wait_for_all_workers` does not return before the last one has ended.
-/

namespace Walkrie
namespace Lifecycle

/-- How a process ended. -/
inductive Status
  | exited (code : Nat)
  | signaled
  deriving DecidableEq, Repr

/-- `WIFEXITED(status) ? WEXITSTATUS(status) : -1` -/
def Status.exitCode : Status → Int
  | .exited code => code
  | .signaled => -1

/-- `BackfillWorkerHandle` -/
structure Handle where
  pid : Nat
  slotName : String
  deriving DecidableEq, Repr

/-- `BackfillSpawnStatus` -/
inductive SpawnStatus
  | noPendingWork
  | workerBinaryMissing
  | forkFailed
  | spawned
  deriving DecidableEq, Repr

/-- The lines of the log that are about a worker. -/
inductive Report
  | spawned (worker : Handle)
  /-- From the timer: complete with code zero, an error otherwise. -/
  | reaped (worker : Handle) (exitCode : Int)
  /-- From `wait_for_all_workers`. -/
  | finished (worker : Handle) (exitCode : Int)
  /-- `waitpid` failed. -/
  | waitpidFailed (worker : Handle)
  /-- `wait` failed. -/
  | waitFailed
  deriving DecidableEq, Repr

/-- A child that was not waited for, with how it ended once it has. -/
structure Child where
  pid : Nat
  status : Option Status
  deriving DecidableEq, Repr

structure State where
  workers : List Handle
  /-- The processes the kernel holds for the daemon. -/
  children : List Child
  /-- In the loop of `wait_for_all_workers`. -/
  waiting : Bool
  log : List Report
  /-- The ids and exit codes of the processes that ended, as they ended. -/
  ended : List (Nat × Int)
  deriving DecidableEq, Repr

def State.initial : State := ⟨[], [], false, [], []⟩

/-- What `spawn_if_required` finds. -/
structure Attempt where
  initialized : Bool
  hasPendingBackfillWork : Bool
  workerExists : Bool
  /-- The answer of `fork` in the parent. -/
  fork : Option Nat
  slotName : String
  deriving DecidableEq, Repr

/-- `spawn_if_required`, in the parent.  A child that cannot execute the
worker ends with code 127 like any other. -/
def spawnIfRequired (attempt : Attempt) (state : State) :
    SpawnStatus × State :=
  if !attempt.initialized then (.workerBinaryMissing, state)
  else if !attempt.hasPendingBackfillWork then (.noPendingWork, state)
  else if !attempt.workerExists then (.workerBinaryMissing, state)
  else
    match attempt.fork with
    | none => (.forkFailed, state)
    | some pid =>
        (.spawned,
          { state with
            workers := state.workers ++ [⟨pid, attempt.slotName⟩]
            children := state.children ++ [⟨pid, none⟩]
            log := state.log ++ [.spawned ⟨pid, attempt.slotName⟩] })

/-- The answers of `waitpid` with `WNOHANG`. -/
inductive Waited
  | running
  | failed
  | ended (status : Status)
  deriving DecidableEq, Repr

def waitpid (children : List Child) (pid : Nat) : Waited :=
  match children.find? fun child => child.pid == pid with
  | none => .failed
  | some ⟨_, none⟩ => .running
  | some ⟨_, some status⟩ => .ended status

/-- The kernel forgets a child that was waited for. -/
def forget (children : List Child) (pid : Nat) : List Child :=
  children.eraseP fun child => child.pid == pid

/-- The loop of `remove_finished_workers`: the workers that stay, the
children that stay, and the lines it logs. -/
def removeFinishedWorkers :
    List Handle → List Child → List Handle × List Child × List Report
  | [], children => ([], children, [])
  | worker :: workers, children =>
      match waitpid children worker.pid with
      | .running =>
          let rest := removeFinishedWorkers workers children
          (worker :: rest.1, rest.2.1, rest.2.2)
      | .failed =>
          let rest := removeFinishedWorkers workers children
          (rest.1, rest.2.1, .waitpidFailed worker :: rest.2.2)
      | .ended status =>
          let rest :=
            removeFinishedWorkers workers (forget children worker.pid)
          (rest.1, rest.2.1, .reaped worker status.exitCode :: rest.2.2)

/-- `wait_for_all_workers` after `wait` returned `pid`: the handle with that
id is reported and erased. -/
def finishWorker (state : State) (pid : Nat) (status : Status) : State :=
  match state.workers.find? fun worker => worker.pid == pid with
  | none => { state with children := forget state.children pid }
  | some worker =>
      let workers := state.workers.eraseP fun worker => worker.pid == pid
      { state with
        workers
        children := forget state.children pid
        waiting := !workers.isEmpty
        log := state.log ++ [.finished worker status.exitCode] }

inductive Label
  | spawn (attempt : Attempt)
  /-- A process ends. -/
  | ends (pid : Nat) (status : Status)
  /-- The timer fires. -/
  | reap
  /-- `wait_for_all_workers` is called, also by the destructor. -/
  | waitForAll
  /-- `wait` returns a process that has ended. -/
  | waited (pid : Nat)
  /-- `wait` is interrupted by a signal. -/
  | interrupted
  /-- `wait` fails because there is no child. -/
  | childless
  deriving DecidableEq, Repr

/-- The answer of `fork` is the id of no child. -/
def Attempt.isFresh (attempt : Attempt) (children : List Child) : Bool :=
  match attempt.fork with
  | none => true
  | some pid => !(children.map Child.pid).contains pid

def step (state : State) : Label → Option State
  | .spawn attempt =>
      if !state.waiting && attempt.isFresh state.children then
        some (spawnIfRequired attempt state).2
      else none
  | .ends pid status =>
      if state.children.contains ⟨pid, none⟩ then
        some { state with
          children := state.children.map fun child =>
            if child.pid == pid then ⟨pid, some status⟩ else child
          ended := state.ended ++ [(pid, status.exitCode)] }
      else none
  | .reap =>
      if state.waiting then none
      else
        let left := removeFinishedWorkers state.workers state.children
        some { state with
          workers := left.1
          children := left.2.1
          log := state.log ++ left.2.2 }
  | .waitForAll =>
      if state.waiting then none
      else some { state with waiting := !state.workers.isEmpty }
  | .waited pid =>
      match waitpid state.children pid with
      | .ended status =>
          if state.waiting then some (finishWorker state pid status) else none
      | _ => none
  | .interrupted => if state.waiting then some state else none
  | .childless =>
      if state.waiting && state.children.isEmpty then
        some { state with waiting := false, log := state.log ++ [.waitFailed] }
      else none

/-! ## What the log accounts for -/

/-- The workers that were started. -/
def started (log : List Report) : List Handle :=
  log.filterMap fun report =>
    match report with
    | .spawned worker => some worker
    | _ => none

/-- The workers whose end was reported, with the code. -/
def reported (log : List Report) : List (Handle × Int) :=
  log.filterMap fun report =>
    match report with
    | .reaped worker exitCode => some (worker, exitCode)
    | .finished worker exitCode => some (worker, exitCode)
    | _ => none

/-- The process id and exit code in a report. -/
def exitOf (entry : Handle × Int) : Nat × Int := (entry.1.pid, entry.2)

def Report.isFailure : Report → Bool
  | .waitpidFailed _ | .waitFailed => true
  | _ => false

/-- The id and exit code of a child that has ended. -/
def Child.exit (child : Child) : Option (Nat × Int) :=
  child.status.map fun status => (child.pid, status.exitCode)

/-- The exits that the kernel still holds. -/
def pendingExits (children : List Child) : List (Nat × Int) :=
  children.filterMap Child.exit

@[simp]
theorem started_append (earlier later : List Report) :
    started (earlier ++ later) = started earlier ++ started later :=
  List.filterMap_append

@[simp]
theorem reported_append (earlier later : List Report) :
    reported (earlier ++ later) = reported earlier ++ reported later :=
  List.filterMap_append

@[simp]
theorem pendingExits_append (children others : List Child) :
    pendingExits (children ++ others) =
      pendingExits children ++ pendingExits others :=
  List.filterMap_append

@[simp]
theorem pendingExits_nil : pendingExits [] = [] := rfl

@[simp]
theorem pendingExits_cons_running (pid : Nat) (children : List Child) :
    pendingExits (⟨pid, none⟩ :: children) = pendingExits children :=
  rfl

@[simp]
theorem pendingExits_cons_ended
    (pid : Nat)
    (status : Status)
    (children : List Child) :
    pendingExits (⟨pid, some status⟩ :: children) =
      (pid, status.exitCode) :: pendingExits children :=
  rfl

/-- The lists of the manager and of the kernel are the same processes, every
worker that was started is in them or was reported, and every exit was
reported or is still held by the kernel. -/
structure Accounted (state : State) : Prop where
  distinct : (state.children.map Child.pid).Nodup
  known : state.workers.map Handle.pid = state.children.map Child.pid
  workers_perm : (started state.log).Perm
    ((reported state.log).map Prod.fst ++ state.workers)
  exits_perm : state.ended.Perm
    ((reported state.log).map exitOf ++ pendingExits state.children)
  sane : ∀ report ∈ state.log, report.isFailure = false
  waits : state.waiting = true → state.workers ≠ []

/-! ## Answers of the kernel -/

theorem find?_split
    {Entry : Type*}
    (pid : Entry → Nat)
    {before after : List Entry}
    {entry : Entry}
    (absent : pid entry ∉ before.map pid) :
    (before ++ entry :: after).find? (fun other => pid other == pid entry) =
      some entry := by
  rw [List.find?_append, List.find?_eq_none.mpr]
  · simp
  · intro other member same
    exact absent (List.mem_map.mpr ⟨other, member, by simpa using same⟩)

theorem eraseP_split
    {Entry : Type*}
    (pid : Entry → Nat)
    {before after : List Entry}
    {entry : Entry}
    (absent : pid entry ∉ before.map pid) :
    (before ++ entry :: after).eraseP (fun other => pid other == pid entry) =
      before ++ after := by
  rw [List.eraseP_append_right]
  · simp
  · intro other member same
    exact absent (List.mem_map.mpr ⟨other, member, by simpa using same⟩)

/-- The answer of `waitpid` for the child at a place of the list. -/
theorem waitpid_split
    {before after : List Child}
    {child : Child}
    (absent : child.pid ∉ before.map Child.pid) :
    waitpid (before ++ child :: after) child.pid =
      match child.status with
      | none => .running
      | some status => .ended status := by
  unfold waitpid
  rw [find?_split Child.pid absent]
  rcases child with ⟨pid, _ | status⟩ <;> rfl

theorem forget_split
    {before after : List Child}
    {child : Child}
    (absent : child.pid ∉ before.map Child.pid) :
    forget (before ++ child :: after) child.pid = before ++ after :=
  eraseP_split Child.pid absent

/-- A child that `waitpid` hands over has ended with that status. -/
theorem exists_split_of_waitpid
    {children : List Child}
    {pid : Nat}
    {status : Status}
    (answered : waitpid children pid = .ended status) :
    ∃ before after,
      children = before ++ ⟨pid, some status⟩ :: after ∧
        pid ∉ before.map Child.pid := by
  unfold waitpid at answered
  cases found : children.find? (fun child => child.pid == pid) with
  | none => simp [found] at answered
  | some child =>
      obtain ⟨same, before, after, split, others⟩ :=
        List.find?_eq_some_iff_append.mp found
      obtain ⟨childPid, _ | childStatus⟩ := child
      · simp [found] at answered
      · simp only [found, Waited.ended.injEq] at answered
        simp only [beq_iff_eq] at same
        subst answered same
        refine ⟨before, after, split, ?_⟩
        intro member
        obtain ⟨other, otherMember, otherPid⟩ := List.mem_map.mp member
        simpa [otherPid] using others other otherMember

/-! ## Every step accounts for the workers -/

/-- What the loop of `remove_finished_workers` owes: the workers and exits it
takes off the lists are the ones it reports. -/
structure Settles
    (workers : List Handle)
    (children : List Child)
    (workersLeft : List Handle)
    (childrenLeft : List Child)
    (reports : List Report) : Prop where
  known : workersLeft.map Handle.pid = childrenLeft.map Child.pid
  sublist : List.Sublist childrenLeft children
  starts : started reports = []
  workers_perm :
    workers.Perm ((reported reports).map Prod.fst ++ workersLeft)
  exits_perm : (pendingExits children).Perm
    ((reported reports).map exitOf ++ pendingExits childrenLeft)
  sane : ∀ report ∈ reports, report.isFailure = false

/-- The loop keeps a running worker with its child. -/
theorem Settles.keep
    {workers workersLeft : List Handle}
    {children childrenLeft : List Child}
    {reports : List Report}
    (settles : Settles workers children workersLeft childrenLeft reports)
    (worker : Handle) :
    Settles (worker :: workers) (⟨worker.pid, none⟩ :: children)
      (worker :: workersLeft) (⟨worker.pid, none⟩ :: childrenLeft)
      reports where
  known := by simp [settles.known]
  sublist := settles.sublist.cons_cons _
  starts := settles.starts
  workers_perm :=
    (settles.workers_perm.cons worker).trans List.perm_middle.symm
  exits_perm := by simpa using settles.exits_perm
  sane := settles.sane

/-- The loop reports a worker that has ended. -/
theorem Settles.reap
    {workers workersLeft : List Handle}
    {children childrenLeft : List Child}
    {reports : List Report}
    (settles : Settles workers children workersLeft childrenLeft reports)
    (worker : Handle)
    (status : Status) :
    Settles (worker :: workers) (⟨worker.pid, some status⟩ :: children)
      workersLeft childrenLeft
      (.reaped worker status.exitCode :: reports) where
  known := settles.known
  sublist := settles.sublist.cons _
  starts := by simpa [started] using settles.starts
  workers_perm := by
    simpa [reported] using settles.workers_perm.cons worker
  exits_perm := by
    simpa [reported, exitOf] using
      settles.exits_perm.cons (worker.pid, status.exitCode)
  sane := by
    intro report member
    obtain rfl | member := List.mem_cons.mp member
    · rfl
    · exact settles.sane report member

/-- The children before the ones the loop still has to visit stay as they
are: the induction is on the workers, with the visited children in front. -/
theorem removeFinishedWorkers_settles
    (workers : List Handle)
    (visited children : List Child)
    (known : workers.map Handle.pid = children.map Child.pid)
    (distinct : ((visited ++ children).map Child.pid).Nodup) :
    ∃ workersLeft childrenLeft reports,
      removeFinishedWorkers workers (visited ++ children) =
          (workersLeft, visited ++ childrenLeft, reports) ∧
        Settles workers children workersLeft childrenLeft reports := by
  induction workers generalizing visited children with
  | nil =>
      obtain rfl : children = [] := by simpa using known.symm
      exact ⟨[], [], [], rfl, rfl, .slnil, rfl, .refl _, .refl _, by simp⟩
  | cons worker workers inductionHypothesis =>
      obtain _ | ⟨child, children⟩ := children
      · simp at known
      simp only [List.map_cons, List.cons.injEq] at known
      obtain ⟨samePid, known⟩ := known
      have absent : child.pid ∉ visited.map Child.pid := by
        rw [List.map_append, List.nodup_append] at distinct
        intro member
        exact distinct.2.2 _ member child.pid (by simp) rfl
      obtain ⟨pid, status⟩ := child
      simp only at samePid absent
      subst samePid
      cases status with
      | none =>
          obtain ⟨workersLeft, childrenLeft, reports, result, settles⟩ :=
            inductionHypothesis (visited ++ [⟨worker.pid, none⟩]) children
              known (by simpa using distinct)
          refine ⟨_, ⟨worker.pid, none⟩ :: childrenLeft, reports, ?_,
            settles.keep worker⟩
          have answer : waitpid (visited ++ ⟨worker.pid, none⟩ :: children)
              worker.pid = .running := waitpid_split absent
          simp only [List.append_assoc, List.singleton_append] at result
          simp [removeFinishedWorkers, answer, result]
      | some status =>
          have fewer : List.Sublist (visited ++ children)
              (visited ++ ⟨worker.pid, some status⟩ :: children) :=
            (List.sublist_cons_self _ _).append_left visited
          obtain ⟨workersLeft, childrenLeft, reports, result, settles⟩ :=
            inductionHypothesis visited children known
              (distinct.sublist (fewer.map Child.pid))
          refine ⟨workersLeft, childrenLeft, _, ?_,
            settles.reap worker status⟩
          have answer : waitpid
              (visited ++ ⟨worker.pid, some status⟩ :: children)
              worker.pid = .ended status := waitpid_split absent
          have forgotten : forget
              (visited ++ ⟨worker.pid, some status⟩ :: children)
              worker.pid = visited ++ children := forget_split absent
          simp [removeFinishedWorkers, answer, forgotten, result]

theorem Accounted.initial : Accounted .initial where
  distinct := by simp [State.initial]
  known := rfl
  workers_perm := .refl _
  exits_perm := .refl _
  sane := by simp [State.initial]
  waits := by simp [State.initial]

theorem Accounted.spawn
    {state : State}
    (accounted : Accounted state)
    (attempt : Attempt)
    (idle : state.waiting = false)
    (fresh : attempt.isFresh state.children = true) :
    Accounted (spawnIfRequired attempt state).2 := by
  unfold spawnIfRequired
  split_ifs
  · exact accounted
  · exact accounted
  · exact accounted
  cases forked : attempt.fork with
  | none => exact accounted
  | some pid =>
      have absent : pid ∉ state.children.map Child.pid := by
        simpa [Attempt.isFresh, forked] using fresh
      constructor
      case distinct =>
        rw [List.map_append]
        exact accounted.distinct.append (by simp) (by simpa using absent)
      case known => simp [accounted.known]
      case workers_perm =>
        simpa [started, reported] using
          accounted.workers_perm.append_right [⟨pid, attempt.slotName⟩]
      case exits_perm =>
        simpa [reported] using accounted.exits_perm
      case sane =>
        exact List.forall_mem_append.mpr
          ⟨accounted.sane, List.forall_mem_singleton.mpr rfl⟩
      case waits => simp [idle]

/-- Ending a child changes what the kernel holds for it and nothing else. -/
theorem ends_split
    {before after : List Child}
    {pid : Nat}
    (status : Status)
    (distinct : ((before ++ ⟨pid, none⟩ :: after).map Child.pid).Nodup) :
    (before ++ ⟨pid, none⟩ :: after).map
        (fun child => if child.pid == pid then ⟨pid, some status⟩ else child) =
      before ++ ⟨pid, some status⟩ :: after := by
  have untouched : ∀ children : List Child,
      pid ∉ children.map Child.pid →
      children.map (fun child =>
        if child.pid == pid then (⟨pid, some status⟩ : Child) else child) =
        children := by
    intro children absent
    refine (List.map_congr_left fun child member => ?_).trans
      (List.map_id children)
    have other : child.pid ≠ pid := fun same =>
      absent (List.mem_map.mpr ⟨child, member, same⟩)
    simp [other]
  simp only [List.map_append, List.map_cons, List.nodup_append,
    List.nodup_cons] at distinct
  have absentBefore : pid ∉ before.map Child.pid := fun member =>
    distinct.2.2 pid member pid (by simp) rfl
  rw [List.map_append, List.map_cons, untouched before absentBefore,
    untouched after distinct.2.1.1]
  simp

theorem Accounted.ends
    {state : State}
    (accounted : Accounted state)
    {pid : Nat}
    (status : Status)
    (running : (⟨pid, none⟩ : Child) ∈ state.children) :
    Accounted { state with
      children := state.children.map fun child =>
        if child.pid == pid then ⟨pid, some status⟩ else child
      ended := state.ended ++ [(pid, status.exitCode)] } := by
  obtain ⟨before, after, split⟩ := List.append_of_mem running
  have distinct := accounted.distinct
  have known := accounted.known
  have exits := accounted.exits_perm
  rw [split] at distinct known exits
  rw [split, ends_split status distinct]
  constructor
  case distinct => simpa using distinct
  case known => simpa using known
  case workers_perm => exact accounted.workers_perm
  case exits_perm =>
    refine (exits.append_right _).trans ?_
    simp only [pendingExits_append, pendingExits_cons_running,
      pendingExits_cons_ended, List.append_assoc]
    refine List.Perm.append_left _ (List.Perm.append_left _ ?_)
    exact List.perm_append_singleton _ _
  case sane => exact accounted.sane
  case waits => exact accounted.waits

theorem Accounted.reap
    {state : State}
    (accounted : Accounted state)
    (idle : state.waiting = false) :
    Accounted { state with
      workers :=
        (removeFinishedWorkers state.workers state.children).1
      children :=
        (removeFinishedWorkers state.workers state.children).2.1
      log := state.log ++
        (removeFinishedWorkers state.workers state.children).2.2 } := by
  obtain ⟨workersLeft, childrenLeft, reports, result, settles⟩ :=
    removeFinishedWorkers_settles state.workers [] state.children
      accounted.known accounted.distinct
  rw [List.nil_append, List.nil_append] at result
  rw [result]
  constructor
  case distinct =>
    exact accounted.distinct.sublist (settles.sublist.map Child.pid)
  case known => exact settles.known
  case workers_perm =>
    simpa [settles.starts] using accounted.workers_perm.trans
      (settles.workers_perm.append_left _)
  case exits_perm =>
    simpa using accounted.exits_perm.trans
      (settles.exits_perm.append_left _)
  case sane =>
    exact List.forall_mem_append.mpr ⟨accounted.sane, settles.sane⟩
  case waits => simp [idle]

/-- The handle that `wait_for_all_workers` finds stands where the kernel's
child stood. -/
theorem Accounted.finish
    {state : State}
    (accounted : Accounted state)
    {pid : Nat}
    {status : Status}
    (answered : waitpid state.children pid = .ended status) :
    Accounted (finishWorker state pid status) := by
  obtain ⟨before, after, split, absent⟩ := exists_split_of_waitpid answered
  have known := accounted.known
  have exits := accounted.exits_perm
  have distinct := accounted.distinct
  rw [split] at known exits distinct
  rw [List.map_append, List.map_cons] at known
  obtain ⟨earlier, tail, workersSplit, earlierKnown, tailKnown⟩ :=
    List.map_eq_append_iff.mp known
  obtain ⟨worker, later, rfl, samePid, laterKnown⟩ :=
    List.map_eq_cons_iff.mp tailKnown
  simp only at samePid
  subst samePid
  have unseen : worker.pid ∉ earlier.map Handle.pid := by
    rw [earlierKnown]
    exact absent
  have found : (earlier ++ worker :: later).find?
      (fun other => other.pid == worker.pid) = some worker :=
    find?_split Handle.pid unseen
  have erased : (earlier ++ worker :: later).eraseP
      (fun other => other.pid == worker.pid) = earlier ++ later :=
    eraseP_split Handle.pid unseen
  have forgotten : forget
      (before ++ ⟨worker.pid, some status⟩ :: after) worker.pid =
        before ++ after := forget_split absent
  unfold finishWorker
  rw [workersSplit, split, found, erased, forgotten]
  constructor
  case distinct =>
    exact distinct.sublist
      (((List.sublist_cons_self _ _).append_left before).map Child.pid)
  case known => simp [earlierKnown, laterKnown]
  case workers_perm =>
    have workers := accounted.workers_perm
    rw [workersSplit] at workers
    simp only [started_append, reported_append]
    simpa [started, reported] using
      workers.trans (List.Perm.append_left _ List.perm_middle)
  case exits_perm =>
    simp only [pendingExits_append, pendingExits_cons_ended] at exits
    simpa [reported, exitOf] using
      exits.trans (List.Perm.append_left _ List.perm_middle)
  case sane =>
    exact List.forall_mem_append.mpr
      ⟨accounted.sane, List.forall_mem_singleton.mpr rfl⟩
  case waits => simp

/-- While the loop of `wait_for_all_workers` runs there is a child, so `wait`
does not fail. -/
theorem Accounted.children_ne_nil
    {state : State}
    (accounted : Accounted state)
    (waiting : state.waiting = true) :
    state.children ≠ [] := by
  intro empty
  have known := accounted.known
  rw [empty, List.map_nil, List.map_eq_nil_iff] at known
  exact accounted.waits waiting known

theorem step_accounted
    {state next : State}
    {label : Label}
    (accounted : Accounted state)
    (taken : step state label = some next) :
    Accounted next := by
  cases label with
  | spawn attempt =>
      simp only [step, Option.ite_none_right_eq_some, Bool.and_eq_true,
        Bool.not_eq_true', Option.some.injEq] at taken
      obtain ⟨⟨idle, fresh⟩, rfl⟩ := taken
      exact accounted.spawn attempt idle fresh
  | ends pid status =>
      simp only [step, Option.ite_none_right_eq_some, List.contains_iff_mem,
        Option.some.injEq] at taken
      obtain ⟨running, rfl⟩ := taken
      exact accounted.ends status running
  | reap =>
      simp only [step, Option.ite_none_left_eq_some, Bool.not_eq_true,
        Option.some.injEq] at taken
      obtain ⟨idle, rfl⟩ := taken
      exact accounted.reap idle
  | waitForAll =>
      simp only [step, Option.ite_none_left_eq_some, Option.some.injEq]
        at taken
      obtain ⟨-, rfl⟩ := taken
      exact ⟨accounted.distinct, accounted.known, accounted.workers_perm,
        accounted.exits_perm, accounted.sane, by simp⟩
  | waited pid =>
      simp only [step] at taken
      split at taken
      · rename_i status answered
        simp only [Option.ite_none_right_eq_some, Option.some.injEq] at taken
        obtain ⟨-, rfl⟩ := taken
        exact accounted.finish answered
      · cases taken
  | interrupted =>
      simp only [step, Option.ite_none_right_eq_some, Option.some.injEq]
        at taken
      obtain ⟨-, rfl⟩ := taken
      exact accounted
  | childless =>
      simp only [step, Option.ite_none_right_eq_some, Bool.and_eq_true,
        List.isEmpty_iff, Option.some.injEq] at taken
      exact absurd taken.1.2 (accounted.children_ne_nil taken.1.1)

/-! ## The end of `wait_for_all_workers` -/

/-- A label that ends, or is, a call of `wait_for_all_workers`. -/
def Returns (state : State) (label : Label) (next : State) : Prop :=
  step state label = some next ∧
    (label = .waitForAll ∨ state.waiting = true) ∧ next.waiting = false

/-- A call returns with an empty list. -/
theorem workers_eq_nil_of_returns
    {state next : State}
    {label : Label}
    (accounted : Accounted state)
    (returns : Returns state label next) :
    next.workers = [] := by
  obtain ⟨taken, called, idle⟩ := returns
  cases label with
  | spawn attempt => simp_all [step]
  | ends pid status =>
      simp only [step, Option.ite_none_right_eq_some, Option.some.injEq]
        at taken
      obtain ⟨-, rfl⟩ := taken
      simp_all
  | reap => simp_all [step]
  | waitForAll =>
      simp only [step, Option.ite_none_left_eq_some, Option.some.injEq]
        at taken
      obtain ⟨-, rfl⟩ := taken
      simpa using idle
  | waited pid =>
      simp only [step] at taken
      split at taken
      · simp only [Option.ite_none_right_eq_some, Option.some.injEq] at taken
        obtain ⟨waiting, rfl⟩ := taken
        unfold finishWorker at idle ⊢
        split at idle
        · simp [waiting] at idle
        · simpa using idle
      · cases taken
  | interrupted => simp_all [step]
  | childless =>
      simp only [step, Option.ite_none_right_eq_some, Bool.and_eq_true,
        List.isEmpty_iff] at taken
      exact absurd taken.1.2 (accounted.children_ne_nil taken.1.1)

/-- Whatever the order in which workers are started, end, are reaped by the
timer and are waited for: when `wait_for_all_workers` returns, the kernel
holds no child of the daemon, every worker that was started was reported
exactly once, every exit was reported exactly once with its own code, and no
call of `waitpid` or `wait` has failed. -/
theorem settled_of_returns
    {state next : State}
    {label : Label}
    (reachable : Transition.Reachable step (fun _ _ => True) .initial state)
    (returns : Returns state label next) :
    next.children = [] ∧
      (started next.log).Perm ((reported next.log).map Prod.fst) ∧
      next.ended.Perm ((reported next.log).map exitOf) ∧
      ∀ report ∈ next.log, report.isFailure = false := by
  have accounted : Accounted state :=
    reachable.invariant Accounted Accounted.initial
      fun _ _ _ before _ taken => step_accounted before taken
  have after : Accounted next := step_accounted accounted returns.1
  have empty : next.workers = [] :=
    workers_eq_nil_of_returns accounted returns
  have childless : next.children = [] := by
    have known := after.known
    rw [empty] at known
    simpa using known.symm
  refine ⟨childless, ?_, ?_, after.sane⟩
  · simpa [empty] using after.workers_perm
  · simpa [childless] using after.exits_perm

/-- Two workers: one is reaped by the timer, the other is killed while the
daemon, interrupted once, waits for it. -/
def sampleWorkers : List Label :=
  [.spawn ⟨true, true, true, some 7, "orders"⟩,
    .spawn ⟨true, true, true, some 8, "users"⟩,
    .ends 8 (.exited 0), .reap, .waitForAll, .interrupted,
    .ends 7 .signaled]

theorem settled_sampleWorkers :
    ∃ state next, Transition.Reachable step (fun _ _ => True) .initial state ∧
      Returns state (.waited 7) next ∧
      reported next.log = [(⟨8, "users"⟩, 0), (⟨7, "orders"⟩, -1)] ∧
      next.children = [] ∧
      next.ended.Perm ((reported next.log).map exitOf) := by
  obtain ⟨state, reachable, tested⟩ := Transition.exists_reachable_of_run
    (fun _ _ => True) sampleWorkers (fun _ _ _ => trivial)
    (show ((Transition.run step .initial sampleWorkers).any fun state =>
      state.waiting && (step state (.waited 7)).any fun next =>
        !next.waiting && decide (reported next.log =
          [(⟨8, "users"⟩, 0), (⟨7, "orders"⟩, -1)])) = true by
      decide +kernel)
  rw [Bool.and_eq_true, Option.any_eq_true] at tested
  obtain ⟨waiting, next, taken, last⟩ := tested
  rw [Bool.and_eq_true, Bool.not_eq_true', decide_eq_true_iff] at last
  have returns : Returns state (.waited 7) next :=
    ⟨taken, .inr waiting, last.1⟩
  have settled := settled_of_returns reachable returns
  exact ⟨state, next, reachable, returns, last.2, settled.1, settled.2.2.1⟩

end Lifecycle
end Walkrie

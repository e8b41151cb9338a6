import PicoRecorder.Lib.Baton
import PicoRecorder.PiZero.Playback
import PicoRecorder.PiZero.Recordings
/-!
# Controller — `Controller` (`controller.py`)

Any number of calls and worker threads share one `Ctl`: the fields behind `_meta_lock` and the one transport.  A thread
is at a `Job`, the place it has come to; it moves from one `with self._meta_lock` block to the next, in any order with
the others.  A block is one move, except the one of `safe_stop` that waits for its own lock: `metaLock` is the thread
that holds the lock and will not release it.  A call of its session a thread begins, it goes in and out of the
transport's operations, and the call comes back with all it did.  Nothing but the code keeps two threads from using the
transport at once.
-/
namespace PicoRecorder
namespace PiZero

open Lib

inductive CtlState where
  | pass | record | armed | playing | error
  deriving DecidableEq, Repr

inductive Kind where
  | record | playback | idle
  deriving DecidableEq, Repr

def Kind.text : Kind → String
  | .record => "record" | .playback => "playback" | .idle => "idle"

inductive Outcome where
  | recording (recording : Recording)
  | playback (result : PlaybackResult)
  deriving DecidableEq, Repr

/-- The keyword arguments of `start_playback`, as the numbers they were given as. -/
structure PlaybackArgs where
  speed : String
  prebufferMs : String
  playbackTimeout : Option String
  deriving DecidableEq, Repr

/-- What `PlaybackSession.__init__` makes of its arguments. -/
structure PlaybackSetup where
  events : List (Int × List UInt8)
  prebufferUs : Int
  playbackTimeout : Option Int
  deriving DecidableEq, Repr

/-- What the Controller is given.  `setup` is the floating-point part of `PlaybackSession.__init__`, which may raise. -/
structure Env (σ : Type) where
  link : Link σ
  store : Store σ
  load : String → σ → Checked Recording × σ
  rename : String → String → σ → Checked Unit × σ
  delete : String → σ → Checked Unit × σ
  setup : Recording → PlaybackArgs → Checked PlaybackSetup
  modeTimeout : Int
  recordPollInterval : Int

/-- How a thread goes on behind `_end`: a call that raises, `safe_stop` with its `return self.status()`, a worker that
exits. -/
inductive After where
  | raises (error : Exn)
  | reports
  | exits (worker : Nat)
  deriving DecidableEq

/-- Where a thread has come to.  An event is named by the generation of the session it belongs to, and so is a
worker. -/
inductive Job where
  | startRecording (name : String)
  | recordingCreate (name : String)
  | recordingStart (session : RecordingSession)
  | recordingHandshake (session : RecordingSession)
  | recordingFailed (session : RecordingSession) (error : Exn)
  | recordingLaunch (session : RecordingSession)
  | recordingRespond (session : RecordingSession) (event : Nat)
  | recordingSpawn (session : RecordingSession) (event : Nat)
  | runRecording (session : RecordingSession) (event : Nat)
  | recordingStop (session : RecordingSession) (event : Nat)
  | recordingCleanup (session : RecordingSession) (event : Nat) (error : Exn)
  | startPlayback (name : String) (args : PlaybackArgs)
  | playbackBegin (name : String) (recording : Recording) (args : PlaybackArgs)
  | playbackCreate (recording : Recording) (args : PlaybackArgs)
  | playbackStart (session : Playback)
  | playbackFailed (session : Playback) (error : Exn)
  | playbackLaunch (session : Playback)
  | playbackRespond (session : Playback) (event : Nat)
  | playbackSpawn (session : Playback) (event : Nat)
  | runPlayback (session : Playback) (event : Nat)
  | playbackAbort (session : Playback) (event : Nat)
  | playbackCleanup (session : Playback) (event : Nat) (error : Exn)
  /-- The timeout of a stop is in seconds. -/
  | requestStop (kind : Kind) (safe : Bool) (timeout : ℚ)
  | stopping (kind : Kind) (safe : Bool) (timeout : ℚ) (event worker generation : Nat)
  | joining (kind : Kind) (safe : Bool) (timeout : ℚ) (worker generation : Nat)
  | renameRecording (old new : String)
  | deleteRecording (name : String)
  | safeStop (timeout : ℚ)
  | safeStopClaim
  | safeStopHandshake
  /-- About to call `status`, with the lock free or in a block that holds it. -/
  | safeStopStatus
  | statusLocked
  /-- About to call `_end`. -/
  | ending (state : CtlState) (error : Option Exn) (result : Option Outcome) (next : After)
  | done (outcome : Checked (Option Outcome))
  | exited (worker : Nat)
  deriving DecidableEq

/-- The calls of the Controller, `status` apart. -/
def Job.isCall : Job → Bool
  | .startRecording _ | .startPlayback _ _ | .requestStop .record false _ | .requestStop .playback false _
  | .renameRecording _ _ | .deleteRecording _ | .safeStop _ => true
  | _ => false

/-- Where a thread is with the call of its session: not in it, in it and between two operations of the transport, or
inside one of them. -/
inductive Phase where
  | outside | calling | inside
  deriving DecidableEq, Repr

structure Thread where
  job : Job
  phase : Phase
  deriving DecidableEq

/-- A thread that has come to a place. -/
def Job.thread (job : Job) : Thread := ⟨job, .outside⟩

structure Ctl (σ : Type) where
  metaLock : Option Nat
  state : CtlState
  activeKind : Option Kind
  activeName : Option String
  worker : Option Nat
  stopEvent : Option Nat
  lastError : Option Exn
  lastResult : Option Outcome
  generation : Nat
  /-- The stop events that are set. -/
  eventsSet : List Nat
  /-- `transport.cancel_event` and the rest of the transport. -/
  cancelEvent : Option Nat
  pending : List Pico.Frame
  link : σ
  threads : List Thread
  /-- History variables: the acts of the transport, how many there were when ERROR was last reported, whether a call has
  completed, whether an operation has ended, and who claimed and released `_active_kind`. -/
  history : List Act
  errorMark : Nat
  completed : Bool
  ended : Bool
  ledger : List (Baton Nat)

def Ctl.init {σ : Type} (link : σ) : Ctl σ where
  metaLock := none
  state := .pass
  activeKind := none
  activeName := none
  worker := none
  stopEvent := none
  lastError := none
  lastResult := none
  generation := 0
  eventsSet := []
  cancelEvent := none
  pending := []
  link := link
  threads := []
  history := []
  errorMark := 0
  completed := false
  ended := false
  ledger := []

namespace Ctl

variable {σ S α : Type}

/-- A call of the session that owns the transport; `none` while it has not come back. -/
def call (c : Ctl σ) (session : S) (m : Py S σ α) : Option (Checked α × S × Ctl σ) :=
  match m ⟨c.pending, session, c.link, c.history⟩ with
  | .ok a h => some (.ok a, h.session, { c with pending := h.pending, link := h.link, history := h.history })
  | .error e h =>
    if e.leaves then
      some (.error e, h.session, { c with pending := h.pending, link := h.link, history := h.history })
    else none

def begin_ (thread : Nat) (kind : Kind) (name : String) (c : Ctl σ) : Option (Ctl σ) :=
  if c.activeKind.isSome then none
  else some
    { c with
      activeKind := some kind, activeName := some name, lastError := none, lastResult := none
      generation := c.generation + 1, ledger := .take thread :: c.ledger }

def end_ (thread : Nat) (state : CtlState) (error : Option Exn) (result : Option Outcome) (c : Ctl σ) : Ctl σ :=
  { c with
    activeKind := none, activeName := none, worker := none, stopEvent := none, state := state, lastError := error
    lastResult := result, ended := true
    errorMark := if state = .error then c.history.length else c.errorMark
    ledger := .drop thread :: c.ledger }

def complete (outcome : Checked (Option Outcome)) (c : Ctl σ) : Job × Ctl σ :=
  (.done outcome, { c with completed := true })

/-- `worker.start()`: the session is the worker's from here on. -/
def spawn (thread : Nat) (job : Job) (c : Ctl σ) : Ctl σ :=
  { c with threads := c.threads ++ [job.thread], ledger := .hand thread c.threads.length :: c.ledger }

/-- `STATE_ERROR if cleanup_error is not None else STATE_PASS`.  The cleanups let no exception out, they return it. -/
def cleanupState : Checked (Option Exn) → CtlState
  | .ok none => .pass
  | .ok (some _) | .error _ => .error

def isSet (event : Nat) (c : Ctl σ) : Bool := c.eventsSet.contains event

def refused : Exn := .raised .recorder "a recording or playback session is already active"

/-- A stop that raises or returns: `safe_stop` passes over a `RecorderError` and goes on to its status. -/
def stopRaises (safe : Bool) (e : Exn) (c : Ctl σ) : Job × Ctl σ :=
  match safe, e with
  | true, .raised .foreign _ => complete (.error e) c
  | true, _ => (.safeStopStatus, c)
  | false, _ => complete (.error e) c

def stopReturns (safe : Bool) (c : Ctl σ) : Job × Ctl σ :=
  if safe then (.safeStopStatus, c) else complete (.ok c.lastResult) c

/-- Whether the worker was ever started, and whether it is still running. -/
def workerStarted (worker : Nat) (c : Ctl σ) : Bool :=
  c.threads.any (fun thread => match thread.job with
    | .runRecording _ w | .recordingStop _ w | .recordingCleanup _ w _ | .runPlayback _ w | .playbackAbort _ w
    | .playbackCleanup _ w _ | .ending _ _ _ (.exits w) | .exited w => w == worker
    | _ => false)

def workerExited (worker : Nat) (c : Ctl σ) : Bool := c.threads.any (fun thread => thread.job == .exited worker)

variable (E : Env σ)

/-- Whether the next move of a thread at the place is a `with self._meta_lock` block. -/
def takesLock (c : Ctl σ) : Job → Bool
  | .startRecording name => matchesName name
  | .playbackCreate recording args =>
    match E.setup recording args with
    | .ok _ => true
    | .error _ => false
  | .joining _ _ _ worker _ => c.workerStarted worker
  | .recordingStart _ | .recordingSpawn _ _ | .runRecording _ _ | .startPlayback _ _ | .playbackSpawn _ _
  | .stopping _ _ _ _ _ _ => false
  | _ => true

/-- A thread goes on to its next place, outside of the calls of its session: `none` while it has to wait. -/
def advance (thread : Nat) (c : Ctl σ) : Job → Option (Job × Ctl σ)
  | .startRecording name =>
    match validateName (.str name) with
    | .error e => some (c.complete (.error e))
    | .ok name =>
      match c.begin_ thread .record name with
      | none => some (c.complete (.error refused))
      | some c => some (.recordingCreate name, c)
  | .recordingCreate name =>
    some (.recordingStart (RecordingSession.create name E.modeTimeout), { c with state := .record })
  | .recordingStart session =>
    let vacant := session.vacant E.store c.link
    let c := { c with link := vacant.2 }
    match vacant.1 with
    | .error e => some (.recordingFailed session e, c)
    | .ok () => some (.recordingHandshake session, c)
  | .recordingLaunch session =>
    some (.recordingRespond session c.generation,
      { c with stopEvent := some c.generation, worker := some c.generation, state := .record })
  | .recordingRespond session event => some (.recordingSpawn session event, c)
  | .recordingSpawn session event => some ((c.spawn thread (.runRecording session event)).complete (.ok none))
  | .runRecording session event => if c.isSet event then some (.recordingStop session event, c) else none
  | .startPlayback name args =>
    let loaded := E.load name c.link
    let c := { c with link := loaded.2 }
    match loaded.1 with
    | .error e => some (c.complete (.error e))
    | .ok recording => some (.playbackBegin name recording args, c)
  | .playbackBegin name recording args =>
    match c.begin_ thread .playback name with
    | none => some (c.complete (.error refused))
    | some c => some (.playbackCreate recording args, c)
  | .playbackCreate recording args =>
    match E.setup recording args with
    | .error e => some (.ending (cleanupState (.ok none)) none none (.raises e), c)
    | .ok setup =>
      some (.playbackStart (Playback.create setup.events setup.prebufferUs E.modeTimeout setup.playbackTimeout),
        { c with state := .armed })
  | .playbackLaunch session =>
    some (.playbackRespond session c.generation,
      { c with stopEvent := some c.generation, worker := some c.generation, state := .playing })
  | .playbackRespond session event => some (.playbackSpawn session event, c)
  | .playbackSpawn session event => some ((c.spawn thread (.runPlayback session event)).complete (.ok none))
  | .requestStop kind safe timeout =>
    if c.activeKind ≠ some kind then some (c.stopRaises safe (.raised .recorder s!"no {kind.text} session is active"))
    else
      match c.stopEvent, c.worker with
      | some event, some worker => some (.stopping kind safe timeout event worker c.generation, c)
      | _, _ => some (c.stopRaises safe (.raised .recorder s!"{kind.text} session is still starting; try again"))
  | .stopping kind safe timeout event worker generation =>
    some (.joining kind safe timeout worker generation, { c with eventsSet := event :: c.eventsSet })
  | .joining kind safe _ worker generation =>
    if !c.workerStarted worker then
      some (c.stopRaises safe (.raised .foreign "cannot join thread before it is started"))
    else if !c.workerExited worker then none
    else if c.generation ≠ generation then
      some (c.stopRaises safe
        (.raised .recorder s!"{kind.text} session ended on its own before it could be stopped; check status"))
    else
      match c.lastError with
      | some e => some (c.stopRaises safe e)
      | none => some (c.stopReturns safe)
  | .renameRecording old new =>
    if (c.activeKind = some .record ∨ c.activeKind = some .playback) ∧ c.activeName = some old then
      some (c.complete (.error (.raised .storage s!"cannot rename recording while it is active: {old}")))
    else
      let renamed := E.rename old new c.link
      some ({ c with link := renamed.2 }.complete (renamed.1.map (fun _ => none)))
  | .deleteRecording name =>
    if (c.activeKind = some .record ∨ c.activeKind = some .playback) ∧ c.activeName = some name then
      some (c.complete (.error (.raised .storage s!"cannot delete recording while it is active: {name}")))
    else
      let deleted := E.delete name c.link
      some ({ c with link := deleted.2 }.complete (deleted.1.map (fun _ => none)))
  | .safeStop timeout =>
    match c.activeKind with
    | some .record => some (.requestStop .record true timeout, c)
    | some .playback => some (.requestStop .playback true timeout, c)
    | _ => some (.safeStopClaim, c)
  | .safeStopClaim =>
    -- the `status` it returns then takes the lock that it holds
    if c.activeKind.isSome then some (.statusLocked, { c with metaLock := some thread })
    else some (.safeStopHandshake, { c with activeKind := some .idle, ledger := .take thread :: c.ledger })
  | .safeStopStatus => some (c.complete (.ok none))
  | .ending state error result next =>
    match next with
    | .raises e => some ((c.end_ thread state error result).complete (.error e))
    | .reports => some (.safeStopStatus, c.end_ thread state error result)
    | .exits worker => some (.exited worker, c.end_ thread state error result)
  | _ => none

/-- A thread calls its session, or `safe_stop` the transport.  A worker looks at its stop event before each poll, and
the one of a playback sets `cancel_event` first. -/
def begins (c : Ctl σ) : Job → Option (Ctl σ)
  | .recordingHandshake _ | .recordingFailed _ _ | .recordingStop _ _ | .recordingCleanup _ _ _ | .playbackStart _
  | .playbackFailed _ _ | .playbackAbort _ _ | .playbackCleanup _ _ _ | .safeStopHandshake => some c
  | .runRecording _ event => if c.isSet event then none else some c
  | .runPlayback _ event => some { c with cancelEvent := some event }
  | _ => none

/-- The call comes back: where the thread goes with its value or its exception. -/
def returns (c : Ctl σ) : Job → Option (Job × Ctl σ)
  | .recordingHandshake session =>
    (c.call session (RecordingSession.enterRecord E.link)).map (fun
      | (.ok _, session, c) => (.recordingLaunch session, c)
      | (.error e, session, c) => (.recordingFailed session e, c))
  | .recordingFailed session error =>
    (c.call session (RecordingSession.abort E.link)).map (fun (report, _, c) =>
      (.ending (cleanupState report) none none (.raises error), c))
  | .runRecording session event =>
    (c.call session (RecordingSession.receiveAndConsume E.link E.recordPollInterval)).map (fun
      | (.ok _, session, c) => (.runRecording session event, c)
      | (.error (.raised .transportTimeout _), session, c) => (.runRecording session event, c)
      | (.error e, session, c) => (.recordingCleanup session event e, c))
  | .recordingStop session event =>
    (c.call session (RecordingSession.stop E.link E.store)).map (fun
      | (.ok recording, _, c) => (.ending .pass none (some (.recording recording)) (.exits event), c)
      | (.error e, session, c) => (.recordingCleanup session event e, c))
  | .recordingCleanup session event error =>
    (c.call session (RecordingSession.abort E.link)).map (fun (report, _, c) =>
      (.ending (cleanupState report) (some error) none (.exits event), c))
  | .playbackStart session =>
    (c.call session (Playback.start E.link)).map (fun
      | (.ok _, session, c) => (.playbackLaunch session, c)
      | (.error e, session, c) => (.playbackFailed session e, c))
  | .playbackFailed session error =>
    (c.call session (Playback.abortBestEffort E.link)).map (fun (report, _, c) =>
      (.ending (cleanupState report) none none (.raises error), c))
  | .runPlayback session event =>
    (c.call session (Playback.finish E.link true)).map (fun
      | (.ok result, _, c) =>
        (.ending .pass none (some (.playback result)) (.exits event), { c with cancelEvent := none })
      | (.error (.raised .transportTimeout message), session, c) =>
        if c.isSet event then (.playbackAbort session event, { c with cancelEvent := none })
        else (.playbackCleanup session event (.raised .transportTimeout message), { c with cancelEvent := none })
      | (.error e, session, c) => (.playbackCleanup session event e, { c with cancelEvent := none }))
  | .playbackAbort session event =>
    (c.call session (Playback.abort E.link true)).map (fun
      | (.ok aborted, _, c) => (.ending .pass none (aborted.map .playback) (.exits event), c)
      | (.error e, _, c) => (.ending .error (some e) none (.exits event), c))
  | .playbackCleanup session event error =>
    (c.call session (Playback.abortBestEffort E.link)).map (fun (report, _, c) =>
      (.ending (cleanupState report) (some error) none (.exits event), c))
  | .safeStopHandshake =>
    (c.call () (Transport.setMode E.link MODE_PASS.toNat E.modeTimeout 1)).map (fun
      | (.ok _, _, c) => (.ending .pass none none .reports, c)
      | (.error e, _, c) => (.ending .error (some e) none .reports, c))
  | _ => none

/-- `join` runs into its timeout while the worker is alive. -/
def joinTimeout (c : Ctl σ) : Job → Option (Job × Ctl σ)
  | .joining kind safe timeout worker _ =>
    if c.workerStarted worker && !c.workerExited worker then
      some (c.stopRaises safe
        (.raised .recorder s!"{kind.text} session did not stop within {Binary64.general timeout}s"))
    else none
  | _ => none

/-- What `status` answers, its diagnostics apart. -/
structure Status where
  state : CtlState
  active : Option Kind
  name : Option String
  lastError : Option Exn
  lastResult : Option Outcome
  deriving DecidableEq

def status (c : Ctl σ) : Status where
  state := c.state
  active := c.activeKind.filter (· ≠ .idle)
  name := c.activeName
  lastError := c.lastError
  lastResult := c.lastResult

inductive Move where
  /-- A thread calls the Controller; `status` only reads. -/
  | call (job : Job)
  | status
  | advance (thread : Nat)
  | begins (thread : Nat)
  | enters (thread : Nat)
  | leaves (thread : Nat)
  | returns (thread : Nat)
  | joinTimeout (thread : Nat)
  deriving DecidableEq

/-- Put a thread's new place into the list of threads. -/
def place (thread : Nat) (moved : Job × Ctl σ) : Ctl σ :=
  { moved.2 with threads := moved.2.threads.set thread moved.1.thread }

/-- A thread that is in the phase and at a place of which `act` makes something. -/
def act {β : Type} (c : Ctl σ) (thread : Nat) (phase : Phase) (act : Job → Option β) : Option β :=
  (c.threads[thread]?).bind (fun t => if t.phase = phase then act t.job else none)

/-- The thread's new phase, at the same place. -/
def enter (thread : Nat) (job : Job) (phase : Phase) (c : Ctl σ) : Ctl σ :=
  { c with threads := c.threads.set thread ⟨job, phase⟩ }

def step (c : Ctl σ) : Move → Option (Ctl σ)
  | .call job => if job.isCall then some { c with threads := c.threads ++ [job.thread] } else none
  | .status => if c.metaLock.isSome then none else some c
  | .advance thread => c.act thread .outside (fun job =>
    if c.metaLock.isSome && c.takesLock E job then none else (c.advance E thread job).map (place thread))
  | .begins thread => c.act thread .outside (fun job => (c.begins job).map (enter thread job .calling))
  | .enters thread => c.act thread .calling (fun job => some (c.enter thread job .inside))
  | .leaves thread => c.act thread .inside (fun job => some (c.enter thread job .calling))
  | .returns thread => c.act thread .calling (fun job => (c.returns E job).map (place thread))
  | .joinTimeout thread => c.act thread .outside (fun job => (c.joinTimeout job).map (place thread))

/-- A run: a move that is not possible where it comes does nothing. -/
def run (c : Ctl σ) (moves : List Move) : Ctl σ := moves.foldl (fun c move => (c.step E move).getD c) c

end Ctl
end PiZero
end PicoRecorder

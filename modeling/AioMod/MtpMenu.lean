/-
# The live MTP install menu

The transport thread starts, writes and closes files; the UI thread runs frames, pushes the
progress box of an installation, runs its done callback when its thread has ended, and may
request a stop; each progress box has a job thread that reads the stream of its file.  Each
section under the menu's mutex is one step, and the streams step as in `MtpStream`.

A stream is known by its number; the labels name the file, the job or the stream they are
about.
-/
import AioMod.MtpStream

namespace MtpMenu

open Traces

/-- `State` -/
inductive State where
  | None
  | Connected
  | Progress
  | Done
  | Failed
  deriving DecidableEq

/-- A stream with its path. -/
structure Source where
  m_path : Bytes
  conf : MtpStream.Conf
  deriving DecidableEq

/-- Where `WaitForIdle` stands in its loop. -/
inductive WaitLoc where
  /-- About to take the mutex and look at the state. -/
  | state
  /-- Not idle, about to look at the token. -/
  | token
  | sleep
  deriving DecidableEq

/-- The transport thread, with the file that is open. -/
inductive Transport where
  | idle
  /-- `OnInstallStart` in `WaitForIdle`. -/
  | starting (path : Bytes) (l : WaitLoc)
  /-- `OnInstallStart` before its second section. -/
  | connecting (path : Bytes)
  | opened (file : ℕ)
  /-- `OnInstallWrite` about to take the mutex, and with its source. -/
  | writing (file : ℕ) (buf : Bytes)
  | writeTo (file : ℕ) (source : Option ℕ) (buf : Bytes)
  | pushing (file source : ℕ)
  /-- `OnInstallClose` about to take the mutex, and with its source. -/
  | closing (file : ℕ)
  | disabling (file : ℕ) (source : Option ℕ)
  | closeWait (file : ℕ) (l : WaitLoc)
  deriving DecidableEq

/-- The UI thread. -/
inductive Ui where
  | frame
  /-- `Update` before `App::Push`, with its source. -/
  | push (source : ℕ)
  /-- `CancelInstallMode` after the stop request. -/
  | cancelSource
  | cancelDisable (source : ℕ)
  | cancelFinish (source : ℕ)
  deriving DecidableEq

/-- A `Result`, 0 for success. -/
abbrev Result := UInt32

/-- How far the thread of a progress box is. -/
inductive Phase where
  /-- In `InstallFromSource`. -/
  | running
  /-- Before `source->Finish()`. -/
  | finishing (rc : Result)
  | exited (rc : Result)
  deriving DecidableEq

/-- A progress box. -/
structure Job where
  source : ℕ
  phase : Phase
  deriving DecidableEq

/-- The menu, its token, every stream that was made, the threads, and the progress boxes. -/
structure Conf where
  m_state : State := .None
  m_source : Option ℕ := none
  m_last_result : Result := 0
  stop_requested : Bool := false
  sources : List Source := []
  transport : Transport := .idle
  ui : Ui := .frame
  jobs : List Job := []
  deriving DecidableEq

/-- What a step shows. -/
inductive Event where
  /-- `OnInstallStart` returns true. -/
  | connected (file : ℕ) (path : Bytes)
  | startRefused
  | write (file : ℕ) (buf : Bytes)
  | writeReturn (file : ℕ) (ok : Bool)
  /-- `OnInstallClose` returns, after `WaitForIdle` has. -/
  | closeReturn (file : ℕ) (idle : Bool)
  | progress (file : ℕ)
  | jobStart (file : ℕ)
  | jobEnd (file : ℕ) (rc : Result)
  | done (file : ℕ) (rc : Result)
  | stream (source : ℕ) (e : MtpStream.Event)
  | stop
  | tau
  deriving DecidableEq

/-- What may happen next. -/
inductive Action where
  | callStart (path : Bytes)
  | callWrite (buf : Bytes)
  | callClose
  | transport
  | transportTimeout
  | update
  | ui
  | done (job : ℕ)
  | stop
  | readChunk (job size : ℕ)
  | job (job : ℕ)
  | jobTimeout (job : ℕ)
  | jobReturn (job : ℕ) (rc : Result)
  deriving DecidableEq

/-! ## The sections -/

/-- Whether `WaitForIdle` goes on waiting. -/
def State.busy : State → Bool
  | Connected => true
  | Progress => true
  | _ => false

/-- A step of a stream. -/
def onSource (c : Conf) (i : ℕ) (a : MtpStream.Action) : Option (Event × Conf) :=
  match c.sources[i]? with
  | none => none
  | some s =>
    match MtpStream.step s.conf a with
    | none => none
    | some (e, conf) => some (.stream i e, { c with sources := c.sources.set i { s with conf } })

/-- A step of `WaitForIdle`: on in its loop, or its result. -/
def WaitForIdle (c : Conf) : WaitLoc → WaitLoc ⊕ Bool
  | .state => if c.m_state.busy then .inl .token else .inr true
  | .token => if c.stop_requested then .inr false else .inl .sleep
  | .sleep => .inl .state

/-- The second section of `OnInstallStart`. -/
def connect (c : Conf) (path : Bytes) : Event × Conf :=
  if c.stop_requested then (.startRefused, { c with transport := .idle })
  else
    let i := c.sources.length
    (.connected i path, { c with
      sources := c.sources ++ [⟨path, { stream := { stop_requested := c.stop_requested } }⟩]
      m_source := some i, m_last_result := 0, m_state := .Connected, transport := .opened i })

/-- A step of an open `Push`, which ends `OnInstallWrite` when it returns. -/
def pushStep (c : Conf) (file i : ℕ) (a : MtpStream.Action) : Option (Event × Conf) :=
  match onSource c i a with
  | none => none
  | some (.stream j (.pushReturn ok), c) =>
    some (.stream j (.pushReturn ok), { c with transport := .opened file })
  | some r => some r

/-- The next step of the transport thread in its call. -/
def transportStep (c : Conf) : Option (Event × Conf) :=
  match c.transport with
  | .idle => none
  | .starting path l =>
    match WaitForIdle c l with
    | .inl l => some (.tau, { c with transport := .starting path l })
    | .inr true => some (.tau, { c with transport := .connecting path })
    | .inr false => some (.startRefused, { c with transport := .idle })
  | .connecting path => some (connect c path)
  | .opened _ => none
  | .writing file buf => some (.tau, { c with transport := .writeTo file c.m_source buf })
  | .writeTo file none _ => some (.writeReturn file false, { c with transport := .opened file })
  | .writeTo file (some i) buf => onSource { c with transport := .pushing file i } i (.push buf)
  | .pushing file i => pushStep c file i .writer
  | .closing file => some (.tau, { c with transport := .disabling file c.m_source })
  | .disabling file none => some (.tau, { c with transport := .closeWait file .state })
  | .disabling file (some i) => onSource { c with transport := .closeWait file .state } i .disable
  | .closeWait file l =>
    match WaitForIdle c l with
    | .inl l => some (.tau, { c with transport := .closeWait file l })
    | .inr idle => some (.closeReturn file idle, { c with transport := .idle })

/-- `Update` up to `App::Push` -/
def Update (c : Conf) : Option (Event × Conf) :=
  if c.m_state ≠ .Connected then some (.tau, c)
  else
    match c.m_source with
    -- `source->GetPath()` of no source
    | none => none
    | some i =>
      some (.progress i, { c with m_state := .Progress, m_last_result := 0, ui := .push i })

/-- The next step of the UI thread in `Update` or `CancelInstallMode`. -/
def uiStep (c : Conf) : Option (Event × Conf) :=
  match c.ui with
  | .frame => none
  | .push i => some (.jobStart i, { c with jobs := c.jobs ++ [⟨i, .running⟩], ui := .frame })
  | .cancelSource =>
    match c.m_source with
    | none => some (.tau, { c with ui := .frame })
    | some i => some (.tau, { c with ui := .cancelDisable i })
  | .cancelDisable i => onSource { c with ui := .cancelFinish i } i .disable
  | .cancelFinish i => onSource { c with ui := .frame } i .finish

/-- The state after the done callback. -/
def State.ofResult (rc : Result) : State := if rc = 0 then Done else Failed

/-- The stop request reaches every stream. -/
def Source.stop (s : Source) : Source :=
  { s with conf := { s.conf with stream := { s.conf.stream with stop_requested := true } } }

/-- The next step under an action, when it is enabled. -/
def step (c : Conf) : Action → Option (Event × Conf)
  | .callStart path =>
    if c.transport = .idle then some (.tau, { c with transport := .starting path .state }) else none
  | .callWrite buf =>
    match c.transport with
    | .opened file => some (.write file buf, { c with transport := .writing file buf })
    | _ => none
  | .callClose =>
    match c.transport with
    | .opened file => some (.tau, { c with transport := .closing file })
    | _ => none
  | .transport => transportStep c
  | .transportTimeout =>
    match c.transport with
    | .pushing file i => pushStep c file i .writerTimeout
    | _ => none
  | .update => if c.ui = .frame then Update c else none
  | .ui => uiStep c
  | .done k =>
    match c.ui, c.jobs[k]? with
    | .frame, some ⟨i, .exited rc⟩ =>
      some (.done i rc, { c with
        jobs := c.jobs.eraseIdx k, m_last_result := rc, m_state := .ofResult rc })
    | _, _ => none
  | .stop =>
    if c.ui = .frame then
      some (.stop, { c with
        stop_requested := true, sources := c.sources.map Source.stop, ui := .cancelSource })
    else none
  | .readChunk k size =>
    match c.jobs[k]? with
    | some ⟨i, .running⟩ => onSource c i (.readChunk size)
    | _ => none
  | .job k =>
    match c.jobs[k]? with
    | some ⟨i, .running⟩ => onSource c i .reader
    | some ⟨i, .finishing rc⟩ => onSource { c with jobs := c.jobs.set k ⟨i, .exited rc⟩ } i .finish
    | _ => none
  | .jobTimeout k =>
    match c.jobs[k]? with
    | some ⟨i, .running⟩ => onSource c i .readerTimeout
    | _ => none
  | .jobReturn k rc =>
    match c.jobs[k]? with
    | some ⟨i, .running⟩ =>
      match c.sources[i]? with
      | some s =>
        -- the installer returns between its reads
        if s.conf.reader = none then
          some (.jobEnd i rc, { c with jobs := c.jobs.set k ⟨i, .finishing rc⟩ })
        else none
      | none => none
    | _ => none

/-- The menu has been opened. -/
def Start (c : Conf) : Prop := c = {}

/-- The traces of the menu. -/
abbrev Runs (t : List Event) (c : Conf) : Prop := Trace step Start t c

end MtpMenu

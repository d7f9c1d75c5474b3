/-
# The install mode of the MTP service

The transport thread calls the callbacks of the menu through guards that count in
`in_flight`; the UI thread sets the callbacks and takes them away again, and waits there until no
guard is left.  Each section under the transport's mutex is one step, and a callback runs as the
transport thread of its menu.

Each `InitInstallMode` has a menu of its own, known by its number, and every file that
`StartInstall` has opened has its number as well; any number of files may be open.
-/
import AioMod.MtpMenu

namespace MtpInstallMode

open Traces

/-- `InstallSharedData` and the flag; a callback is the menu it belongs to. -/
structure Shared where
  g_install_enabled : Bool := false
  current_file : Bytes := []
  on_start : Option ℕ := none
  on_write : Option ℕ := none
  on_close : Option ℕ := none
  in_progress : Bool := false
  in_flight : ℤ := 0
  deriving DecidableEq

/-- A call of the transport thread. -/
inductive Call where
  | start (path : Bytes)
  | write (file : ℕ) (buf : Bytes)
  | close (file : ℕ)
  deriving DecidableEq

/-- Where the transport thread stands. -/
inductive Transport where
  | idle
  /-- In the constructor of the guard. -/
  | guard (call : Call)
  /-- Under the guard, about to copy the callback. -/
  | copy (call : Call)
  | running (call : Call) (menu : ℕ)
  /-- `StartInstall` behind its callback. -/
  | started (path : Bytes) (ok : Bool)
  /-- In the destructor of the guard. -/
  | release (call : Call) (ok : Bool)
  /-- The last section of `CloseFile`. -/
  | clear (file : ℕ)
  deriving DecidableEq

/-- Where the UI thread stands. -/
inductive Ui where
  | free
  /-- `DisableInstallMode` about to look at the guards. -/
  | disabling
  /-- `DisableInstallMode` in `condvarWaitTimeout`. -/
  | waiting
  deriving DecidableEq

/-- The service, the two threads, every menu that was opened, and the files that are open. -/
structure Conf where
  g_shared_data : Shared := {}
  transport : Transport := .idle
  ui : Ui := .free
  menus : List MtpMenu.Conf := []
  opened : ℕ := 0
  files : List ℕ := []
  deriving DecidableEq

/-- What a step shows. -/
inductive Event where
  | call (c : Call)
  /-- A callback starts, and a step in it. -/
  | callback (c : Call) (menu : ℕ)
  | inCallback (menu : ℕ) (e : MtpMenu.Event)
  /-- `StartInstall` finds the state of another file. -/
  | startBusy
  /-- `StartInstall` returns true. -/
  | started (file : ℕ)
  | startRefused
  | writeReturn (file : ℕ) (ok : Bool)
  | closed (file : ℕ)
  | init (menu : ℕ)
  | disable
  | disableReturn
  /-- A step of a menu outside the callbacks. -/
  | menu (menu : ℕ) (e : MtpMenu.Event)
  | tau
  deriving DecidableEq

/-- What may happen next. -/
inductive Action where
  | call (c : Call)
  | transport
  | transportTimeout
  | InitInstallMode
  | DisableInstallMode
  | ui
  | menu (menu : ℕ) (a : MtpMenu.Action)
  deriving DecidableEq

/-! ## The transport thread -/

/-- Whether the call is one of a file that is open. -/
def Call.enabled (files : List ℕ) : Call → Bool
  | start _ => true
  | write f _ => files.contains f
  | close f => files.contains f

/-- Where a callback starts. -/
def Call.entry : Call → MtpMenu.Transport
  | start path => .starting path .state
  | write f buf => .writing f buf
  | close f => .closing f

/-- The return value a step of a callback shows. -/
def returned : MtpMenu.Event → Option Bool
  | .connected _ _ => some true
  | .startRefused => some false
  | .writeReturn _ ok => some ok
  | .stream _ (.pushReturn ok) => some ok
  | .closeReturn _ _ => some true
  | _ => none

/-- Behind the callback of a call. -/
def Call.behind (ok : Bool) : Call → Transport
  | start path => .started path ok
  | c => .release c ok

/-- The constructor of `InstallCallbackGuard`, and what follows without a guard. -/
def guardStep (c : Conf) (call : Call) : Event × Conf :=
  let g := c.g_shared_data
  if g.g_install_enabled then
    (.tau, { c with
      g_shared_data := { g with in_flight := g.in_flight + 1 }, transport := .copy call })
  else
    match call with
    | .start _ => (.startRefused, { c with transport := .idle })
    | .write f _ => (.writeReturn f false, { c with transport := .idle })
    | .close f => (.tau, { c with transport := .clear f })

/-- A callback is called. -/
def enter (c : Conf) (call : Call) (m : ℕ) : Event × Conf :=
  (.callback call m, { c with
    menus := c.menus.modify m fun menu => { menu with transport := call.entry }
    transport := .running call m })

/-- The section that copies the callback. -/
def copyStep (c : Conf) (call : Call) : Event × Conf :=
  let g := c.g_shared_data
  match call with
  | .start path =>
    if g.in_progress ∨ g.current_file ≠ [] then
      (.startBusy, { c with transport := .release call false })
    else
      match g.on_start with
      | none => (.tau, { c with transport := .release call false })
      | some m => enter { c with g_shared_data := { g with current_file := path } } call m
  | .write _ _ =>
    match g.on_write with
    | none => (.tau, { c with transport := .release call false })
    | some m => enter c call m
  | .close _ =>
    match g.on_close with
    | none => (.tau, { c with transport := .release call true })
    | some m => enter c call m

/-- A step in a callback. -/
def callbackStep (c : Conf) (call : Call) (m : ℕ) (a : MtpMenu.Action) : Option (Event × Conf) :=
  match c.menus[m]? with
  | none => none
  | some menu =>
    match MtpMenu.step menu a with
    | none => none
    | some (e, menu) =>
      let transport :=
        match returned e with
        | none => .running call m
        | some ok => call.behind ok
      some (.inCallback m e, { c with menus := c.menus.set m menu, transport })

/-- `StartInstall` after its callback. -/
def startedStep (c : Conf) (path : Bytes) (ok : Bool) : Event × Conf :=
  let g := c.g_shared_data
  (.tau, { c with
    g_shared_data := if ok then { g with in_progress := true } else { g with current_file := [] }
    transport := .release (.start path) ok })

/-- The destructor of the guard, and the return of the call. -/
def releaseStep (c : Conf) (call : Call) (ok : Bool) : Event × Conf :=
  let g := c.g_shared_data
  let c := { c with g_shared_data := { g with in_flight := g.in_flight - 1 } }
  match call with
  | .start _ =>
    if ok then
      (.started c.opened, { c with
        transport := .idle, opened := c.opened + 1, files := c.files ++ [c.opened] })
    else (.startRefused, { c with transport := .idle })
  | .write f _ => (.writeReturn f ok, { c with transport := .idle })
  | .close f => (.tau, { c with transport := .clear f })

/-- The last section of `CloseFile`. -/
def clearStep (c : Conf) (f : ℕ) : Event × Conf :=
  (.closed f, { c with
    g_shared_data := { c.g_shared_data with in_progress := false, current_file := [] }
    transport := .idle, files := c.files.erase f })

/-- The next step of the transport thread in its call. -/
def transportStep (c : Conf) : Option (Event × Conf) :=
  match c.transport with
  | .idle => none
  | .guard call => some (guardStep c call)
  | .copy call => some (copyStep c call)
  | .running call m => callbackStep c call m .transport
  | .started path ok => some (startedStep c path ok)
  | .release call ok => some (releaseStep c call ok)
  | .clear f => some (clearStep c f)

/-! ## The UI thread -/

/-- `InitInstallMode` with the callbacks of a new menu. -/
def InitInstallMode (c : Conf) : Event × Conf :=
  let m := c.menus.length
  (.init m, { c with
    g_shared_data := { c.g_shared_data with
      on_start := some m, on_write := some m, on_close := some m
      in_progress := false, current_file := [], g_install_enabled := true }
    menus := c.menus ++ [{}] })

/-- The next step of the UI thread in `DisableInstallMode`. -/
def disableStep (c : Conf) : Option (Event × Conf) :=
  match c.ui with
  | .free => none
  | .disabling =>
    if c.g_shared_data.in_flight ≠ 0 then some (.tau, { c with ui := .waiting })
    else
      some (.disableReturn, { c with
        g_shared_data := { c.g_shared_data with
          on_start := none, on_write := none, on_close := none
          in_progress := false, current_file := [] }
        ui := .free })
  | .waiting => some (.tau, { c with ui := .disabling })

/-- Whether an action of a menu is one of the UI thread, or of a job. -/
def ofUi : MtpMenu.Action → Option Bool
  | .update => some true
  | .ui => some true
  | .done _ => some true
  | .stop => some true
  | .readChunk _ _ => some false
  | .job _ => some false
  | .jobTimeout _ => some false
  | .jobReturn _ _ => some false
  | _ => none

/-- A step of a menu outside the callbacks. -/
def menuStep (c : Conf) (m : ℕ) (a : MtpMenu.Action) : Option (Event × Conf) :=
  match c.menus[m]? with
  | none => none
  | some menu =>
    match MtpMenu.step menu a with
    | none => none
    | some (e, menu) => some (.menu m e, { c with menus := c.menus.set m menu })

/-- The next step under an action, when it is enabled. -/
def step (c : Conf) : Action → Option (Event × Conf)
  | .call call =>
    if c.transport = .idle ∧ call.enabled c.files = true then
      some (.call call, { c with transport := .guard call })
    else none
  | .transport => transportStep c
  | .transportTimeout =>
    match c.transport with
    | .running call m => callbackStep c call m .transportTimeout
    | _ => none
  | .InitInstallMode => if c.ui = .free then some (InitInstallMode c) else none
  | .DisableInstallMode =>
    if c.ui = .free then
      some (.disable, { c with
        g_shared_data := { c.g_shared_data with g_install_enabled := false }, ui := .disabling })
    else none
  | .ui => disableStep c
  | .menu m a =>
    match ofUi a with
    | some true => if c.ui = .free then menuStep c m a else none
    | some false => menuStep c m a
    | none => none

/-- The service has been started. -/
def Start (c : Conf) : Prop := c = {}

/-- The traces of the service. -/
abbrev Runs (t : List Event) (c : Conf) : Prop := Trace step Start t c

end MtpInstallMode

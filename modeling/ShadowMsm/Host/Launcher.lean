import ShadowMsm.Host.Bundle
import ShadowMsm.Host.Console

/-!
# The launcher

`main` of `k3765_linux_shell.py`: it verifies the kit, finds the downloader, loads the RAM bundle, checks what is in RAM
and hands over to Linux.  The checks of the manifest, the installation of the driver and the staging of the kit are
calls of the environment, as are the lists of ports; the texts of the logs are left out.
-/

namespace ShadowMsm.Host

/-- What the launcher has from its host. -/
structure Env where
  /-- `hashlib.sha256(data).hexdigest()` -/
  sha256 : Bytes → String
  /-- the text of `KIT_ROOT / name` -/
  path : Payload → String
  /-- the terminal gives single keys -/
  rawKeys : Bool

/-- The arguments of the launcher that `main` reads. -/
structure Args where
  diagPort : Option String
  downloaderPort : Option String
  noSwitch : Bool
  attach : Bool
  /-- `f"{args.driver_wait:g}"` -/
  driverWait : String
  /-- `args.max_runtime > 0` -/
  bounded : Bool
  command : List (List Char)
  dryRun : Bool
  installDriver : Bool
  staged : Bool

def IMAGE_RUNTIME_END : Int := 0x0076DFE8

/-! ### Payloads -/

def drawFile : Script (Option Bytes) := fun w =>
  match w.files with
  | [] => (.ok none, w, [])
  | file :: rest => (.ok file, { w with files := rest }, [])

/-- `path.read_bytes()` of a payload file; none where there is no file. -/
def readBytes (payload : Payload) : Script (Option Bytes) := do
  match ← drawFile with
  | none => pure none
  | some data => do
    perform (.readBytes payload data)
    pure (some data)

/-- One pass of the loop of `verify_payloads`. -/
def verifyPayload (env : Env) (payload : Payload) : Script Unit := do
  let expected := PAYLOADS payload
  match ← readBytes payload with
  | none => throw (.runtimeError ("missing payload: " ++ env.path payload))
  | some data =>
    let digest := env.sha256 data
    if data.length ≠ expected.size then
      throw (.runtimeError (expected.name ++ ": size " ++ formatThousands data.length ++ " != " ++
        formatThousands expected.size))
    else if digest ≠ expected.sha256 then
      throw (.runtimeError (expected.name ++ ": SHA-256 " ++ digest ++ " != " ++ expected.sha256))
    else pure ()

/-- `verify_payloads` -/
def verifyPayloads (env : Env) : Script Unit := do
  verifyPayload env .monitor
  verifyPayload env .image
  verifyPayload env .bl1
  verifyPayload env .dtb
  if ¬ (DIRECT_IMAGE_START + (PAYLOADS .image).size ≤ IMAGE_RUNTIME_END ∧ IMAGE_RUNTIME_END ≤ DIRECT_IMAGE_END) then
    throw (.runtimeError "verified Linux Image/runtime metadata exceeds the bounded direct-image window")

/-- Where `load_ram_bundle` loads a payload. -/
def Payload.address : Payload → Int
  | .monitor => MONITOR_BASE
  | .image => 0x00208000
  | .bl1 => BL1_ADDRESS
  | .dtb => DTB_ADDRESS

/-- The bundle of `load_ram_bundle`, with the names of its files for the paths. -/
def launcherBundle (data : Payload → Bytes) : List (Image String) :=
  [.monitor, .image, .bl1, .dtb].map fun payload => ⟨payload.address, (PAYLOADS payload).name, data payload⟩

def readLoaded (payload : Payload) : Script Bytes := do
  match ← readBytes payload with
  | none => throw .osError
  | some data => pure data

/-- The checks of `load_ram_bundle`, which come before the port is opened. -/
def checkLauncherBundle (data : Payload → Bytes) : Except Exn Unit := do
  if (data .monitor).length ≠ (PAYLOADS .monitor).size then
    throw (.runtimeError "monitor no longer has the verified stock size")
  checkWindows (fun i => .runtimeError (i.path ++ " is outside the bounded SDRAM windows")) (launcherBundle data).tail
  checkOverlap .runtimeError (occupied (launcherBundle data))

/-- `load_ram_bundle` after it has read the files. -/
def loadImages (data : Payload → Bytes) : Script Unit := do
  Traced.ofExcept (checkLauncherBundle data)
  perform .system
  openStage0Port
  perform .resetOutput
  uploadAll (launcherBundle data)
  let _ ← pblExecute MONITOR_BASE
  perform .system

/-- `load_ram_bundle` -/
def loadRamBundle : Script Unit := do
  let monitor ← readLoaded .monitor
  let image ← readLoaded .image
  let bl1 ← readLoaded .bl1
  let dtb ← readLoaded .dtb
  loadImages fun
    | .monitor => monitor
    | .image => image
    | .bl1 => bl1
    | .dtb => dtb

/-! ### Ports -/

/-- What a look at the list of ports selects. -/
def drawPort : Script (Option String) := fun w =>
  match w.ports with
  | [] => (.ok none, w, [])
  | port :: rest => (.ok port, { w with ports := rest }, [])

/-- `select_downloader`; `select_obvious_downloader` has another rule for the list of ports and is the same otherwise. -/
def selectDownloader (override : Option String) : Script (Option String) :=
  match override with
  | none => drawPort
  | some name => if name = "" then drawPort else pure (some name.toUpper)

def selectObviousDownloader (override : Option String) : Script (Option String) := selectDownloader override

/-- `select_normal_diag`; the list of ports in its message is left out. -/
def selectNormalDiag (override : Option String) : Script String := do
  match ← selectDownloader override with
  | some port => pure port
  | none => throw (.runtimeError "Could not uniquely identify the normal ZTE diagnostic port.")

/-- The loop of `wait_for_downloader`. -/
def waitLoop (timeout : String) : Nat → Script Unit
  | 0 => throw (.timeoutError ("downloader COM port did not appear within " ++ timeout ++ " seconds"))
  | passes + 1 => do
    match ← selectDownloader none with
    | some _ => pure ()
    | none => waitLoop timeout passes

/-- `wait_for_downloader` -/
def waitForDownloader (args : Args) : Script Unit :=
  match args.downloaderPort with
  | some name => if name = "" then do waitLoop args.driverWait (← drawPasses) else pure ()
  | none => do waitLoop args.driverWait (← drawPasses)

/-- `except (OSError, serial.SerialException): pass` -/
def ignoreOsError (body : Script Unit) : Script Unit :=
  tryCatch body fun e =>
    match e with
    | .osError => pure ()
    | .timeoutError _ => pure ()
    | e => throw e

/-- What `switch_to_downloader` does with the open port, which it closes in the end. -/
def sendSwitch : Script Unit := do
  let exchange : Script Unit := do
    perform .resetInput
    perform .resetOutput
    perform (.write (hdlcFrame [0x3A]))
    perform .flush
    -- `port.read(512)`
    perform .system
  tryCatch exchange fun e => do
    ignoreOsError (perform .system)
    throw e
  ignoreOsError (perform .system)

/-- `switch_to_downloader` -/
def switchToDownloader : Script Unit := do
  ignoreOsError do
    perform .openPort
    sendSwitch
  perform .system

/-- The part of `main` that finds the port of the downloader. -/
def findDownloader (args : Args) : Script Unit :=
  if args.noSwitch then waitForDownloader args
  else do
    match ← selectObviousDownloader args.downloaderPort with
    | some _ => pure ()
    | none => do
      let _ ← selectNormalDiag args.diagPort
      switchToDownloader
      perform .system
      waitForDownloader args

/-! ### The run -/

/-- `main` with `--attach`. -/
def attachSession (env : Env) (args : Args) : Script Unit := do
  match ← selectDownloader args.downloaderPort with
  | none => throw (.runtimeError "No unique Shadow-MSM COM port found; pass --downloader-port COMxx.")
  | some _ => runLinuxConsole args.bounded env.rawKeys args.command true

/-- The last part of `main`: Ctrl+C ends it. -/
def bootConsole (env : Env) (args : Args) : Script Unit :=
  tryCatch (runLinuxConsole args.bounded env.rawKeys args.command false) fun e =>
    match e with
    | .keyboardInterrupt => pure ()
    | e => throw e

/-- `main` of a boot. -/
def bootSession (env : Env) (args : Args) : Script Unit := do
  findDownloader args
  loadRamBundle
  writeBootLog
  perform .system
  crcCheck BL1_ADDRESS .bl1
  crcCheck DTB_ADDRESS .dtb
  bootConsole env args

/-- `main` -/
def main (env : Env) (args : Args) : Script Unit := do
  -- `verify_manifest`
  perform .system
  verifyPayloads env
  if args.installDriver then perform .system
  else if args.dryRun then pure ()
  -- `stage_and_relaunch`
  else if !args.staged then perform .system
  else do
    perform .system
    if args.attach then attachSession env args else bootSession env args

end ShadowMsm.Host

import Parikshan.CloneManager.Commands

/-!
# The script of the clone manager

`vzclone_vz48` from the lock on, stage by stage: checks, preparation of the destination, first
`rsync`, suspending or stopping the container, second `rsync`, quota, and starting the copy. Where
a step fails the script calls one of a chain of `undo` functions and exits.

Command line parsing, messages, timings, the `ssh` multiplexing and the paths of files that the
script only removes again are left out. `act_scripts` and `DUMP_FILE` are set before an `undo`
function looks at them, so they are taken from the configuration and from the status.

## Main definitions

* `Options`, `Conf`, `Vars`: the options, the configuration files, and the variables of the script.
* `lockCt`, `undoLock`, …, `undoUndump`: the functions of the script.
* `vzclone`: the script.
-/

namespace Parikshan.CloneManager

/-! ### Exit statuses -/

def migErrVpsIsStopped : ℕ := 2
def migErrCantConnect : ℕ := 4
def migErrCopy : ℕ := 6
def migErrStartVps : ℕ := 7
def migErrStopSource : ℕ := 8
def migErrExists : ℕ := 9
def migErrNoexist : ℕ := 10
def migErrIpInUse : ℕ := 12
def migErrQuota : ℕ := 13
def migErrCheckpoint : ℕ := migErrStopSource
def migErrMountVps : ℕ := migErrStartVps
def migErrRestoreVps : ℕ := migErrStartVps
def migErrOvzNotRunning : ℕ := 14
def migErrApplyConfig : ℕ := 15
def migErrUnsupPloop : ℕ := 16
def migErrUnsupCptVer : ℕ := 17
def migErrUnsupCpu : ℕ := 18
def migErrCantReadRemoteConfig : ℕ := 19
def migErrLocked : ℕ := 20

/-! ### Variables -/

/-- The command line options. -/
structure Options where
  online : Bool := false
  keepDst : Bool := false
  compact : Bool := false
  snapshot : Bool := false
  checkOnly : Bool := false
  ignoreCpu : Bool := false
  ignoreIpv6 : Bool := false
  deriving DecidableEq, Repr

/-- What `$vzconf`, `$vpsconf` and the files on the source node say. -/
structure Conf where
  /-- `$VE_PRIVATE` -/
  priv : String
  /-- `$VE_PRIVATE` is a symbolic link -/
  privateLink : Bool := false
  /-- `$VE_PRIVATE_TARGET`, the directory to which it is one -/
  privateTarget : String := ""
  /-- `$DISK_QUOTA` is not `no` -/
  diskQuota : Bool := false
  /-- `$IP_ADDRESS` has an address in it -/
  ips : Bool := false
  /-- there are action scripts of the container -/
  actScripts : Bool := false
  deriving DecidableEq, Repr

/-- The variables of the script once its checks are done. -/
structure Vars where
  /-- `$$` -/
  pid : ℕ
  opts : Options
  conf : Conf
  status : Status
  remote : RemoteConf
  /-- `$PLOOP` is `yes` -/
  ploop : Bool

/-- `$DISK_QUOTA` is not `no`; for a `ploop` container it is. -/
def Vars.diskQuota (v : Vars) : Bool := v.conf.diskQuota && !v.ploop

/-- `$compact`, which is reset without `ploop`. -/
def Vars.compact (v : Vars) : Bool := v.opts.compact && v.ploop

/-- `$snapshot`, likewise. -/
def Vars.snapshot (v : Vars) : Bool := v.opts.snapshot && v.ploop

/-! ### Issuing commands -/

abbrev Script := Prog Call (fun c => c.cmd.Reply)

def issue (i : Issuer) (c : Cmd) : Script c.Reply := Prog.call (⟨i, c⟩ : Call) Prog.ret

/-- A command of the main part. -/
def run (c : Cmd) : Script c.Reply := issue .main c

def query (q : Query) : Script Bool := run (.query q)

def act (a : Action) : Script Bool := run (.act a)

/-- A command of an `undo` function, which looks at no status. -/
def undo (a : Action) : Script Unit := Prog.ignore (issue .undo (.act a))

/-- A command by which the main part restores the container. -/
def restore (a : Action) : Script Unit := Prog.ignore (issue .restore (.act a))

/-! ### The lock -/

/-- `lock_ct`, lines 173–196. -/
def lockCt (pid : ℕ) : Script Bool := do
  let locked : Bool ← run (.lock pid)
  if locked then return true
  let exists' : Bool ← run .testLock
  if !exists' then Prog.exit 1
  else
    Prog.ignore (run .catLock)
    return false

/-- `undo_lock`, lines 203–215. A test that compares with no word fails, so that a lock file that
is empty or can not be read is removed. -/
def undoLock (pid : ℕ) : Script Unit := do
  let owner : Option ℕ ← issue .undo .catLock
  if owner.all (· = pid) then undo .rmLock else return ()

/-! ### The chain of `undo` functions, lines 217–315 -/

def undoConf (v : Vars) : Script Unit := do
  undo .setName
  undo .rmConf
  undoLock v.pid

def undoActScripts (v : Vars) : Script Unit := do
  Prog.when v.conf.actScripts (undo .rmActScripts)
  undoConf v

def undoDumpFile (v : Vars) : Script Unit := do
  Prog.when v.status.suspended (undo .rmDumpFile)
  undoActScripts v

/-- The link is looked at on the source node. -/
def undoPrivate (v : Vars) : Script Unit := do
  Prog.when (!v.opts.keepDst) do
    let link : Option String ← issue .undo .remoteLink
    match link with
    | some dir => undo (.rmPrivateTarget dir)
    | none => undo .rmPrivate
  undoDumpFile v

def undoRoot (v : Vars) : Script Unit := do
  undo .rmRoot
  undoPrivate v

def undoQuotaInit (v : Vars) : Script Unit := do
  Prog.when v.diskQuota (undo .quotaDrop)
  undoRoot v

def undoQuotaOn (v : Vars) : Script Unit := do
  Prog.when v.diskQuota (undo .quotaOff)
  undoQuotaInit v

def undoSync (v : Vars) : Script Unit := undoQuotaOn v

def undoSuspend (v : Vars) : Script Unit := do
  undo .resume
  undoSync v

/-- `$debug` is `0`. -/
def undoDump (v : Vars) : Script Unit := do
  undo .rmDump
  undoSuspend v

def undoCopyDump (v : Vars) : Script Unit := do
  undo .rmDstDump
  undoSuspend v

def undoStop (v : Vars) : Script Unit := do
  Prog.when v.status.running (undo .start)
  Prog.when (!v.status.running && v.status.mounted) (undo .mount)
  undoSync v

def undoSourceStage (v : Vars) : Script Unit :=
  if v.opts.online then undoCopyDump v else undoStop v

def undoQuotaDump (v : Vars) : Script Unit := do
  undo .rmQuotaDump
  undoSourceStage v

def undoCopyQuota (v : Vars) : Script Unit := do
  undo .rmDstQuotaDump
  undoQuotaDump v

def undoUndump (v : Vars) : Script Unit := do
  undo .dstKill
  undoCopyQuota v

/-! ### The stages -/

/-- Undo something and exit. -/
def giveUp (p : Script Unit) (n : ℕ) : Script Unit := do
  p
  Prog.exit n

/-- `check_cpt_props`, lines 432–462. -/
def checkCptProps (pid : ℕ) (o : Options) : Script Unit := do
  let version ← query .cptVersion
  Prog.when version ((query .dstCptVersion).orDo (giveUp (undoLock pid) migErrUnsupCptVer))
  let caps ← query .cpuCaps
  Prog.when caps <| (query .cpuFlags).orDo <|
    Prog.when (!o.ignoreCpu) (giveUp (undoLock pid) migErrUnsupCpu)

/-- The checks for a live migration, lines 697–719. -/
def checkOnline (pid : ℕ) (o : Options) : Script Unit := do
  let cptcheck ← query .vzcptcheck
  Prog.when cptcheck do
    let dstCptcheck ← query .dstVzcptcheck
    Prog.when dstCptcheck (checkCptProps pid o)
  let ipv6 ← query .ipv6
  Prog.when ipv6 <| (query .dstIpv6).orDo <|
    Prog.when (!o.ignoreIpv6) (giveUp (undoLock pid) migErrOvzNotRunning)

/-- The checks of both nodes, lines 631–719. -/
def checkNodes (pid : ℕ) (o : Options) (status : Status) : Script Unit := do
  Prog.when status.deleted (giveUp (undoLock pid) migErrNoexist)
  Prog.when (o.online && !status.running) (giveUp (undoLock pid) migErrVpsIsStopped)
  (query .connect).orDo (giveUp (undoLock pid) migErrCantConnect)
  (query .vzRunning).orDo (giveUp (undoLock pid) migErrOvzNotRunning)
  Prog.when o.online do
    (query .cpt).orDo (giveUp (undoLock pid) migErrOvzNotRunning)
    (query .rst).orDo (giveUp (undoLock pid) migErrOvzNotRunning)
  let dstExists ← query .dstExists
  Prog.when dstExists (giveUp (undoLock pid) migErrExists)
  Prog.when o.online (checkOnline pid o)

/-- `.` and `eval` are special: when they fail the shell exits, as `bash` does with status 1, and
nothing is undone. -/
def source (f : Sourced) : Script Unit := (run (.source f)).orDo (Prog.exit 1)

/-- The configuration of both nodes, lines 721–737. -/
def readConf (pid : ℕ) : Script RemoteConf := do
  source .vzconf
  source .vpsconf
  let remote : RemoteConf ← run .remoteConf
  source .remoteConf
  Prog.when (remote.root = "" || remote.priv = "")
    (giveUp (undoLock pid) migErrCantReadRemoteConfig)
  return remote

/-- The last checks, lines 755–788. -/
def checkConf (v : Vars) : Script Unit := do
  Prog.when v.ploop ((query .ploopGetdev).orDo (giveUp (undoLock v.pid) migErrUnsupPloop))
  Prog.when v.conf.ips do
    let inUse ← query .ipInUse
    Prog.when inUse (giveUp (undoLock v.pid) migErrIpInUse)
  Prog.when v.opts.checkOnly (giveUp (undoLock v.pid) 0)

/-- The configuration on the remote node, lines 790–799. That the paths have been set is not
checked. -/
def copyConf (v : Vars) : Script Unit := do
  (act (.scpConf v.conf.priv)).orDo (giveUp (undoLock v.pid) migErrCopy)
  Prog.ignore (act (.setPaths v.remote.priv))

/-- Preparing the remote node, lines 801–879. -/
def prepare (v : Vars) : Script Unit := do
  let ret : ℕ ← run .applyConfig
  Prog.when (ret ≠ 20 && ret ≠ 21 && ret ≠ 0) (giveUp (undoConf v) migErrApplyConfig)
  Prog.when v.conf.actScripts ((act .scpActScripts).orDo (giveUp (undoConf v) migErrCopy))
  Prog.when v.status.suspended ((act .scpDumpFile).orDo (giveUp (undoActScripts v) migErrCopy))
  (act .mkdirRoot).orDo (giveUp (undoDumpFile v) migErrCopy)
  Prog.when v.conf.privateLink
    ((act (.mkdirPrivateTarget v.conf.privateTarget)).orDo (giveUp (undoPrivate v) migErrCopy))
  (act .mkdirPrivate).orDo (giveUp (undoPrivate v) migErrCopy)
  Prog.when v.diskQuota do
    (act .quotaInit).orDo (giveUp (undoRoot v) migErrQuota)
    (act .quotaOn).orDo (giveUp (undoQuotaInit v) migErrQuota)

/-- Compacting the image and creating a snapshot, lines 881–895. If either fails the script undoes
what it has done on the destination node, the lock included, and goes on. -/
def compactSnapshot (v : Vars) : Script Unit := do
  Prog.when v.compact (Prog.orDo (run .compact) (undoRoot v))
  Prog.when v.snapshot (Prog.orDo (run .snapshot) (undoRoot v))

/-- `$TOP_DELTA`, which is needed for a `ploop` container that runs, lines 897–905. -/
def getTopDelta (v : Vars) : Script String :=
  if v.ploop && v.status.running then do
    let info : Option String ← run .ploopInfo
    match info with
    | some top => return top
    | none =>
      undoRoot v
      Prog.exit migErrCopy
  else return ""

/-- `vzfsync` of the deltas on the destination node, lines 917–935. -/
def vzfsync (v : Vars) : Script Unit :=
  Prog.when v.ploop do
    let files ← query .snapshotList
    Prog.when files do
      let present ← query .vzfsync
      Prog.when present (Prog.ignore (query .vzfsyncDeltas))

/-- The first `rsync`, without the top delta of a container that runs, lines 907–935. -/
def syncPrivate (v : Vars) (top : String) : Script Unit := do
  let ret : ℕ ← run (.rsync1 (if v.ploop && v.status.running then some top else none))
  Prog.when (ret ≠ 24 && ret ≠ 0) (giveUp (undoQuotaOn v) migErrCopy)
  vzfsync v

/-- `ploop_copy` with its fallback `ploop_copy_old`, lines 341–403. -/
def ploopCopy (freeze : Freeze) (top : String) : Script Bool := do
  let dev ← query .blockDev
  if dev then
    let delta ← query .topDelta
    if delta then
      Prog.ignore (act (.rmDelta top))
      let err : ℕ ← run .ploopFeedback
      if err = 38 then run (.ploopCopy false freeze top)
      else
        let alive ← query .sshAlive
        run (.ploopCopy alive freeze top)
    else return false
  else return false

/-- Suspending the container, lines 945–965. -/
def suspendCt (v : Vars) (top : String) : Script Unit :=
  if v.ploop then
    (ploopCopy .suspend top).orDo <| giveUp (restore .resume >>= fun _ => undoSync v) migErrCopy
  else (act .suspend).orDo (giveUp (undoSync v) migErrCheckpoint)

/-- Suspending and dumping the container, lines 937–982. -/
def suspendAndDump (v : Vars) (top : String) : Script Unit := do
  suspendCt v top
  (act .dump).orDo (giveUp (undoSuspend v) migErrCheckpoint)
  (act .scpDump).orDo (giveUp (undoDump v) migErrCopy)

/-- Stopping the container, lines 984–1007. -/
def stopCt (v : Vars) (top : String) : Script Unit :=
  if v.ploop then do
    (ploopCopy .stop top).orDo <| giveUp (restore .start >>= fun _ => undoSync v) migErrCopy
    (act .umount).orDo <| giveUp (restore .start >>= fun _ => undoSync v) migErrStopSource
  else (act .stop).orDo (giveUp (undoSync v) migErrStopSource)

/-- Suspending, stopping or unmounting the container, lines 937–1015. -/
def suspendOrStop (v : Vars) (top : String) : Script Unit :=
  if v.opts.online then suspendAndDump v top
  else if v.status.running then stopCt v top
  else Prog.when v.status.mounted ((act .umount).orDo (giveUp (undoSync v) migErrStopSource))

/-- The second `rsync`, lines 1017–1025. -/
def syncPrivate2 (v : Vars) : Script Unit :=
  Prog.when (v.status.running && !v.ploop) do
    let ret : ℕ ← run .rsync2
    Prog.when (ret ≠ 0) (giveUp (undoSourceStage v) migErrCopy)

/-- The second-level quota, lines 1027–1052. -/
def syncQuota (v : Vars) : Script Unit :=
  Prog.when v.diskQuota do
    (act .quotaDump).orDo (giveUp (undoQuotaDump v) migErrQuota)
    (act .scpQuotaDump).orDo (giveUp (undoQuotaDump v) migErrCopy)
    (act .quotaLoad).orDo (giveUp (undoCopyQuota v) migErrQuota)

/-- Restoring or starting the copy, lines 1054–1111. A live migration releases the lock before it
resumes the container and removes the dump files. -/
def restoreOrStart (v : Vars) : Script Unit :=
  if v.opts.online then do
    (act .undump).orDo (giveUp (undoCopyQuota v) migErrRestoreVps)
    (act .dstResume).orDo (giveUp (undoUndump v) migErrRestoreVps)
    undoLock v.pid
    Prog.ignore (act .resumeProduction)
    Prog.ignore (act .rmDump)
    Prog.ignore (act .rmDstDump)
  else if v.status.running then
    (act .dstStart).orDo (giveUp (undoCopyQuota v) migErrStartVps)
  else if v.status.mounted then
    (act .dstMount).orDo (giveUp (undoCopyQuota v) migErrMountVps)
  else Prog.when v.diskQuota ((act .dstQuotaOff).orDo (giveUp (undoCopyQuota v) migErrQuota))

/-- What the script does once its variables are set. -/
def clone (v : Vars) : Script Unit := do
  checkConf v
  copyConf v
  prepare v
  compactSnapshot v
  let top ← getTopDelta v
  syncPrivate v top
  suspendOrStop v top
  syncPrivate2 v
  syncQuota v
  restoreOrStart v
  Prog.exit 0

/-- What the script does with the lock held. -/
def migrate (pid : ℕ) (o : Options) (conf : Conf) : Script Unit := do
  let status : Status ← run .status
  checkNodes pid o status
  let remote ← readConf pid
  let ploop : Bool ← run .testDdxml
  clone { pid, opts := o, conf, status, remote, ploop }

/-- `vzclone_vz48`, from the check of `$vzconf` on. -/
def vzclone (pid : ℕ) (o : Options) (conf : Conf) : Script Unit := do
  (query .vzconf).orDo (Prog.exit migErrNoexist)
  (lockCt pid).orDo (Prog.exit migErrLocked)
  migrate pid o conf

end Parikshan.CloneManager

import Parikshan.Program.Basic
import Mathlib.Logic.Function.Basic

/-!
# The commands of the clone manager

`vzclone_vz48` works on a container by commands of the container tools on the source node and, over
`ssh`, on the destination node, by `scp` and `rsync`, and by files that it creates and removes. This
file tells what there is on the two nodes and what each command does to it.

A command that fails has no effect, on either node, but for `ploop copy`, which may fail when it has
run its freeze command, and for the `echo` of `lock_ct`, which may fail when its redirection has
created the lock file. An `rsync` of a file that the container is writing may leave anything in its
place. The `status` of a container is the truth or, if the command fails, nothing, and so is what is
read of the configuration of the destination node; what is read of a link is the truth. Other checks
are free to turn out in any way, also as on another destination node than the one that is described.
A configuration file that can not be read, or that is no shell script, ends the shell that reads it
by `.` or `eval`.

## Main definitions

* `World`: the container on the source node, its copy on the destination node, the lock file.
* `Cmd`, `Call`: the commands, with the part of the script that issues them.
* `Cmd.Out`, `Cmd.Reply`, `Cmd.exec`: how they turn out, what the script sees, what they do.
* `vzctl`: the shell of these commands.
* `Write`: what the container does meanwhile.
-/

namespace Parikshan.CloneManager

/-! ### The two nodes -/

/-- Whether a container runs, is suspended in memory, or is mounted only. -/
inductive Run
  | running
  | frozen
  | mounted
  | stopped
  deriving DecidableEq, Repr

namespace Run

/-- `chkpnt --suspend`. -/
def suspend : Run → Run
  | running => frozen
  | r => r

/-- `chkpnt --resume`, which does nothing to a container that runs. -/
def resume : Run → Run
  | frozen => running
  | r => r

/-- `stop`, which unmounts the container as well. -/
def stop : Run → Run
  | running => stopped
  | r => r

/-- `stop --skip-umount`. -/
def stopSkipUmount : Run → Run
  | running => mounted
  | r => r

/-- `umount`. -/
def umount : Run → Run
  | mounted => stopped
  | r => r

/-- `start`, which mounts the container if need be. -/
def start : Run → Run
  | mounted => running
  | stopped => running
  | r => r

/-- `mount`. -/
def mount : Run → Run
  | stopped => mounted
  | r => r

end Run

/-- The files of a private area. -/
abbrev Tree (B : Type) := String → Option B

/-- What the words of `vzctl status` say. -/
structure Status where
  deleted : Bool := false
  mounted : Bool := false
  running : Bool := false
  suspended : Bool := false
  deriving DecidableEq, Repr

/-- The container on the source node, with contents of memory in `M` and of files in `B`. -/
structure Source (M B : Type) where
  exist : Bool
  run : Run
  /-- the container has been suspended to a `Dump` file -/
  suspended : Bool
  mem : M
  /-- `$VE_PRIVATE` -/
  tree : Tree B
  /-- the directory that `$VE_PRIVATE_REMOTE` is a link to on this node, if it is a link -/
  remoteLink : Option String
  /-- the private area holds a `ploop` image -/
  ploop : Bool
  /-- the top delta of the image, to which the container writes -/
  top : String
  /-- `$VE_DUMPFILE` -/
  dump : Option M
  /-- `$VE_QUOTADUMP` -/
  quotaDump : Bool

/-- `$VE_ROOT`, `$VE_PRIVATE` and `$DUMPDIR` of a node, each empty if not known. -/
structure RemoteConf where
  root : String
  priv : String
  dumpdir : String
  deriving DecidableEq, Repr

/-- Some of the values, as far as the connection has lasted. -/
def RemoteConf.Within (o r : RemoteConf) : Prop :=
  (o.root = r.root ∨ o.root = "") ∧ (o.priv = r.priv ∨ o.priv = "") ∧
    (o.dumpdir = r.dumpdir ∨ o.dumpdir = "")

instance (o r : RemoteConf) : Decidable (o.Within r) :=
  inferInstanceAs (Decidable (_ ∧ _ ∧ _))

/-- What there is of the container on the destination node. -/
structure Dest (M B : Type) where
  /-- `/etc/vz/vz.conf` -/
  vzconf : RemoteConf
  /-- `$vpsconf`, with the private area that it names -/
  config : Option String
  actScripts : Bool
  /-- `$DUMPDIR_REMOTE/$DUMP_FILE` -/
  dumpFile : Bool
  /-- `$VE_ROOT_REMOTE` -/
  root : Bool
  /-- `$VE_PRIVATE_REMOTE` -/
  priv : Bool
  /-- the directory that `$VE_PRIVATE_REMOTE` has been made a link to -/
  target : Option String
  tree : Tree B
  quotaInit : Bool
  quotaOn : Bool
  dump : Option M
  quotaDump : Bool
  run : Run
  mem : Option M

/-- The two nodes and `/vz/lock/$VEID.lck`. -/
structure World (M B : Type) where
  src : Source M B
  dst : Dest M B
  /-- the lock file, if there is one, with the process id in it, if it is not empty -/
  lock : Option (Option ℕ)

/-! ### The commands -/

/-- Checks, which have no effect. -/
inductive Query
  | vzconf
  | connect
  | vzRunning
  | cpt
  | rst
  | dstExists
  | vzcptcheck
  | dstVzcptcheck
  | cptVersion
  | dstCptVersion
  | cpuCaps
  | cpuFlags
  | ipv6
  | dstIpv6
  | ploopGetdev
  | ipInUse
  | snapshotList
  | vzfsync
  | vzfsyncDeltas
  | blockDev
  | topDelta
  | sshAlive
  deriving DecidableEq, Repr

/-- Commands that succeed or fail. -/
inductive Action
  | rmLock
  | scpConf (priv : String)
  | setPaths (priv : String)
  | scpActScripts
  | scpDumpFile
  | mkdirRoot
  | mkdirPrivateTarget (dir : String)
  | mkdirPrivate
  | quotaInit
  | quotaOn
  | suspend
  | rmDelta (top : String)
  | dump
  | scpDump
  | stop
  | umount
  | start
  | mount
  | resume
  | resumeProduction
  | quotaDump
  | scpQuotaDump
  | quotaLoad
  | undump
  | dstResume
  | dstStart
  | dstMount
  | dstQuotaOff
  | dstKill
  | rmDump
  | rmDstDump
  | rmQuotaDump
  | rmDstQuotaDump
  | setName
  | rmConf
  | rmActScripts
  | rmDumpFile
  | rmPrivate
  | rmPrivateTarget (dir : String)
  | rmRoot
  | quotaDrop
  | quotaOff
  deriving DecidableEq, Repr

/-- The command that `ploop copy` runs when only little is left to copy. -/
inductive Freeze
  | suspend
  | stop
  deriving DecidableEq, Repr

/-- What the shell of the script reads into itself: two files by `.`, and by `eval` what the
destination node has said of its configuration. -/
inductive Sourced
  | vzconf
  | vpsconf
  | remoteConf
  deriving DecidableEq, Repr

/-- The commands of the script. -/
inductive Cmd
  | query (q : Query)
  | act (a : Action)
  | source (f : Sourced)
  | lock (pid : ℕ)
  | testLock
  | catLock
  | testDdxml
  | status
  | remoteConf
  | remoteLink
  | applyConfig
  | ploopInfo
  | ploopFeedback
  | compact
  | snapshot
  | rsync1 (exclude : Option String)
  | rsync2
  | ploopCopy (feedback : Bool) (freeze : Freeze) (top : String)
  deriving DecidableEq, Repr

/-- Where in the script a command stands: in its main part, in an `undo` function, or where the main
part itself restores the container because a step has failed. -/
inductive Issuer
  | main
  | undo
  | restore
  deriving DecidableEq, Repr

/-- A command with the part of the script that issues it. -/
structure Call where
  issuer : Issuer
  cmd : Cmd
  deriving DecidableEq, Repr

/-! ### Their meaning -/

/-- How `ploop copy` turns out: it may fail before or after its freeze command. -/
inductive Copied
  | ok
  | early
  | late
  deriving DecidableEq, Repr

/-- How the redirection of `lock_ct` turns out: it fails if there is a lock file, and otherwise the
`echo` may fail before or after the file has been created. -/
inductive Created
  | ok
  | failed
  | empty
  deriving DecidableEq, Repr

/-- What the script sees of a command: a status, success, or what it prints. -/
@[reducible] def Cmd.Reply : Cmd → Type
  | .query _ => Bool
  | .act _ => Bool
  | .source _ => Bool
  | .lock _ => Bool
  | .testLock => Bool
  | .catLock => Option ℕ
  | .testDdxml => Bool
  | .status => Status
  | .remoteConf => RemoteConf
  | .remoteLink => Option String
  | .applyConfig => ℕ
  | .ploopInfo => Option String
  | .ploopFeedback => ℕ
  | .compact => Bool
  | .snapshot => Bool
  | .rsync1 _ => ℕ
  | .rsync2 => ℕ
  | .ploopCopy _ _ _ => Bool

/-- How a command turns out. A successful `compact` or `snapshot` leaves some files in the private
area, and an `rsync` has some contents for files that change while it reads them. -/
@[reducible] def Cmd.Out (B : Type) : Cmd → Type
  | .query _ => Bool
  | .act _ => Bool
  | .source _ => Bool
  | .lock _ => Created
  | .testLock => Bool
  | .catLock => Option ℕ
  | .testDdxml => Bool
  | .status => Status
  | .remoteConf => RemoteConf
  | .remoteLink => Option String
  | .applyConfig => ℕ
  | .ploopInfo => Option String
  | .ploopFeedback => ℕ
  | .compact => Option (Tree B)
  | .snapshot => Option (Tree B × String)
  | .rsync1 _ => ℕ × Tree B
  | .rsync2 => ℕ × Tree B
  | .ploopCopy _ _ _ => Copied

/-- What of it the script sees. -/
def Cmd.reply (B : Type) : (c : Cmd) → c.Out B → c.Reply
  | .query _, o => o
  | .act _, o => o
  | .source _, o => o
  | .lock _, (o : Created) => decide (o = .ok)
  | .testLock, o => o
  | .catLock, o => o
  | .testDdxml, o => o
  | .status, o => o
  | .remoteConf, o => o
  | .remoteLink, o => o
  | .applyConfig, o => o
  | .ploopInfo, o => o
  | .ploopFeedback, o => o
  | .compact, (o : Option (Tree B)) => o.isSome
  | .snapshot, (o : Option (Tree B × String)) => o.isSome
  | .rsync1 _, (o : ℕ × Tree B) => o.1
  | .rsync2, (o : ℕ × Tree B) => o.1
  | .ploopCopy _ _ _, (o : Copied) => decide (o = .ok)

section Effects

variable {M B : Type}

namespace Source

/-- The truth about a container; one that is suspended in memory counts as running. -/
def status (s : Source M B) : Status where
  deleted := !s.exist
  mounted := decide (s.run ≠ .stopped)
  running := decide (s.run = .running ∨ s.run = .frozen)
  suspended := s.suspended

/-- The container may be writing to a file. -/
def Writes (s : Source M B) (path : String) : Prop :=
  s.run = .running ∧ (s.ploop = true → path = s.top)

instance (s : Source M B) (path : String) : Decidable (s.Writes path) :=
  inferInstanceAs (Decidable (_ ∧ _))

/-- Run or stop the container. -/
def setRun (s : Source M B) (f : Run → Run) : Source M B := { s with run := f s.run }

end Source

/-- What an `rsync` of the private area leaves on the destination node. -/
def World.sync (w : World M B) (exclude : Option String) (changing : Tree B) : World M B :=
  { w with
    dst := { w.dst with
      priv := true
      tree := fun path =>
        if exclude = some path then w.dst.tree path
        else if w.src.Writes path then changing path
        else w.src.tree path } }

/-- The effect of a freeze command on the container. -/
def Freeze.run : Freeze → Run → Run
  | .suspend => .suspend
  | .stop => .stopSkipUmount

/-- The effect of a command that succeeds. -/
def Action.effect (w : World M B) : Action → World M B
  | .rmLock => { w with lock := none }
  | .scpConf priv => { w with dst := { w.dst with config := some priv } }
  | .setPaths priv => { w with dst := { w.dst with config := w.dst.config.map fun _ => priv } }
  | .scpActScripts => { w with dst := { w.dst with actScripts := true } }
  | .scpDumpFile => { w with dst := { w.dst with dumpFile := true } }
  | .mkdirRoot => { w with dst := { w.dst with root := true } }
  | .mkdirPrivateTarget dir =>
    { w with dst := { w.dst with target := some dir, priv := true } }
  | .mkdirPrivate => { w with dst := { w.dst with priv := true } }
  | .quotaInit => { w with dst := { w.dst with quotaInit := true } }
  | .quotaOn => { w with dst := { w.dst with quotaOn := true } }
  | .suspend => { w with src := w.src.setRun .suspend }
  | .rmDelta top => { w with dst := { w.dst with tree := Function.update w.dst.tree top none } }
  | .dump => { w with src := { w.src with dump := some w.src.mem } }
  | .scpDump => { w with dst := { w.dst with dump := w.src.dump } }
  | .stop => { w with src := w.src.setRun .stop }
  | .umount => { w with src := w.src.setRun .umount }
  | .start => { w with src := w.src.setRun .start }
  | .mount => { w with src := w.src.setRun .mount }
  | .resume => { w with src := w.src.setRun .resume }
  | .resumeProduction => { w with src := w.src.setRun .resume }
  | .quotaDump => { w with src := { w.src with quotaDump := true } }
  | .scpQuotaDump => { w with dst := { w.dst with quotaDump := w.src.quotaDump } }
  | .quotaLoad => w
  | .undump => { w with dst := { w.dst with run := .frozen, mem := w.dst.dump } }
  | .dstResume => { w with dst := { w.dst with run := .running } }
  | .dstStart => { w with dst := { w.dst with run := .running } }
  | .dstMount => { w with dst := { w.dst with run := .mounted } }
  | .dstQuotaOff => { w with dst := { w.dst with quotaOn := false } }
  | .dstKill => { w with dst := { w.dst with run := .stopped, mem := none } }
  | .rmDump => { w with src := { w.src with dump := none } }
  | .rmDstDump => { w with dst := { w.dst with dump := none } }
  | .rmQuotaDump => { w with src := { w.src with quotaDump := false } }
  | .rmDstQuotaDump => { w with dst := { w.dst with quotaDump := false } }
  | .setName => w
  | .rmConf => { w with dst := { w.dst with config := none } }
  | .rmActScripts => { w with dst := { w.dst with actScripts := false } }
  | .rmDumpFile => { w with dst := { w.dst with dumpFile := false } }
  | .rmPrivate =>
    -- of a link only the link goes
    { w with
      dst := { w.dst with
        priv := false
        tree := if w.dst.target = none then fun _ => none else w.dst.tree } }
  | .rmPrivateTarget dir =>
    -- the directory is the one to which there is a link on the source node; of the private area
    -- itself the command removes the link, and fails if it is none
    { w with
      dst := { w.dst with
        priv := false
        target := if w.dst.target = some dir then none else w.dst.target
        tree := if w.dst.target = none ∨ w.dst.target = some dir then fun _ => none
          else w.dst.tree } }
  | .rmRoot => { w with dst := { w.dst with root := false } }
  | .quotaDrop => { w with dst := { w.dst with quotaInit := false } }
  | .quotaOff => { w with dst := { w.dst with quotaOn := false } }

/-- What a command that turns out in some way makes of the world. -/
def Cmd.exec : (c : Cmd) → c.Out B → World M B → Option (World M B)
  | .query _, _, w => some w
  | .act a, (o : Bool), w => some (if o then a.effect w else w)
  | .source _, _, w => some w
  | .lock pid, (o : Created), w =>
    -- the redirection creates the file only if there is none
    match o with
    | .failed => some w
    | .ok => if w.lock = none then some { w with lock := some (some pid) } else none
    | .empty => if w.lock = none then some { w with lock := some none } else none
  | .testLock, (o : Bool), w => if o = w.lock.isSome then some w else none
  | .catLock, (o : Option ℕ), w => if o = w.lock.join ∨ o = none then some w else none
  | .testDdxml, (o : Bool), w => if o = w.src.ploop then some w else none
  | .status, (o : Status), w => if o = w.src.status ∨ o = {} then some w else none
  | .remoteConf, (o : RemoteConf), w => if o.Within w.dst.vzconf then some w else none
  | .remoteLink, (o : Option String), w => if o = w.src.remoteLink then some w else none
  | .applyConfig, _, w => some w
  | .ploopInfo, (o : Option String), w => if o = some w.src.top ∨ o = none then some w else none
  | .ploopFeedback, _, w => some w
  | .compact, (o : Option (Tree B)), w =>
    some (o.elim w fun tree => { w with src := { w.src with tree := tree } })
  | .snapshot, (o : Option (Tree B × String)), w =>
    some (o.elim w fun x => { w with src := { w.src with tree := x.1, top := x.2 } })
  | .rsync1 exclude, (o : ℕ × Tree B), w =>
    some (if o.1 = 0 ∨ o.1 = 24 then w.sync exclude o.2 else w)
  | .rsync2, (o : ℕ × Tree B), w => some (if o.1 = 0 ∨ o.1 = 24 then w.sync none o.2 else w)
  | .ploopCopy _ freeze top, (o : Copied), w =>
    match o with
    | .early => some w
    | .late => some { w with src := w.src.setRun freeze.run }
    | .ok =>
      some { w with
        src := w.src.setRun freeze.run
        dst := { w.dst with tree := Function.update w.dst.tree top (w.src.tree w.src.top) } }

/-- How a command turns out if nothing goes wrong and nothing is in the way. -/
def Cmd.usual : (c : Cmd) → World M B → c.Out B
  | .query q, _ => decide (q ≠ .dstExists ∧ q ≠ .ipInUse)
  | .act _, _ => true
  | .source _, _ => true
  | .lock _, _ => Created.ok
  | .testLock, w => w.lock.isSome
  | .catLock, w => w.lock.join
  | .testDdxml, w => w.src.ploop
  | .status, w => w.src.status
  | .remoteConf, w => w.dst.vzconf
  | .remoteLink, w => w.src.remoteLink
  | .applyConfig, _ => (0 : ℕ)
  | .ploopInfo, w => some w.src.top
  | .ploopFeedback, _ => (0 : ℕ)
  | .compact, w => some w.src.tree
  | .snapshot, w => some (w.src.tree, w.src.top)
  | .rsync1 _, w => ((0 : ℕ), w.src.tree)
  | .rsync2, w => ((0 : ℕ), w.src.tree)
  | .ploopCopy _ _ _, _ => Copied.ok

end Effects

/-- The commands of the script on worlds with memory contents in `M` and file contents in `B`. -/
def vzctl (M B : Type) : Shell Call (fun c => c.cmd.Reply) (World M B) where
  Out c := c.cmd.Out B
  reply c := c.cmd.reply B
  exec c := c.cmd.exec

/-- A container on the source node in some state, and a destination node without it. -/
def World.start {M B : Type} (run : Run) (ploop : Bool) (mem : M) (tree : Tree B) : World M B where
  src := { exist := true, run, suspended := false, mem, tree, remoteLink := none, ploop,
           top := "root.hdd/root.hdd", dump := none, quotaDump := false }
  dst := { vzconf := ⟨"/vz/root", "/vz/private", "/vz/dump"⟩, config := none, actScripts := false,
           dumpFile := false, root := false, priv := false, target := none, tree := fun _ => none,
           quotaInit := false, quotaOn := false, dump := none, quotaDump := false, run := .stopped,
           mem := none }
  lock := none

/-- What the container writes while it is running. -/
inductive Write (M B : Type)
  | mem (m : M)
  | disk (path : String) (b : Option B)

/-- A write of the container: to memory, or to a file; with a `ploop` image, to the top delta. -/
def write {M B : Type} (x : Write M B) (w : World M B) : Option (World M B) :=
  match x with
  | .mem m => if w.src.run = .running then some { w with src := { w.src with mem := m } } else none
  | .disk path b =>
    if w.src.Writes path then
      some { w with src := { w.src with tree := Function.update w.src.tree path b } }
    else none

end Parikshan.CloneManager

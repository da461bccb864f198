import Parikshan.CloneManager.Script
import Parikshan.Program.Guarantee

/-!
# The script that migrates a container

`vzmigrate_vz48` is what `vzclone_vz48` has been made from: the two are the same up to the second
level quota, and so are their `undo` functions. When the copy runs, is mounted or lies there, this
one does away with the container on the source node: a live migration kills and unmounts it, and
either the container is destroyed or its configuration is moved out of the way. The lock is released
at the very end, whatever the options.

A container that runs may write to its memory and its files, on either node.

## Main definitions

* `Cleanup`, `cleaner`: the commands that `vzclone_vz48` does not have.
* `vzmigrate`: the script.
* `writeAt`: what the container does meanwhile, on the node on which it runs.
-/

namespace Parikshan.CloneManager

/-! ### Commands -/

/-- The commands that do away with the container: `chkpnt --kill`, `destroy`, and `mv` of its
configuration. None of them is checked. -/
inductive Cleanup
  | kill
  | destroy
  | moveConf
  deriving DecidableEq, Repr

/-- `chkpnt --kill`: the processes of a suspended container go, and it stays mounted. -/
def Run.kill : Run → Run
  | frozen => mounted
  | r => r

section Effects

variable {M B : Type}

/-- What one of these commands makes of the world; only a container that is stopped and not mounted
can be destroyed. -/
def Cleanup.exec : Cleanup → Bool → World M B → Option (World M B)
  | .kill, o, w => some (if o then { w with src := w.src.setRun .kill } else w)
  | .destroy, o, w =>
    if o then
      if w.src.run = .stopped then
        some { w with src := { w.src with exist := false, tree := fun _ => none } }
      else none
    else some w
  | .moveConf, o, w => some (if o then { w with src := { w.src with exist := false } } else w)

end Effects

def cleaner (M B : Type) : Shell Cleanup (fun _ => Bool) (World M B) where
  Out _ := Bool
  reply _ o := o
  exec := Cleanup.exec

/-- The commands of the script. -/
abbrev migrator (M B : Type) :
    Shell (Call ⊕ Cleanup) (Sum.elim (fun c => c.cmd.Reply) fun _ => Bool) (World M B) :=
  (vzctl M B).sum (cleaner M B)

/-! ### The script -/

abbrev Migration := Prog (Call ⊕ Cleanup) (Sum.elim (fun c => c.cmd.Reply) fun _ => Bool)

/-- What the two scripts have in common. -/
def shared {α : Type} (p : Script α) : Migration α := p.lift fun _ => Bool

def clean (c : Cleanup) : Migration Unit := Prog.ignore (Prog.issue (.inr c))

/-- The checks and the variables of the script, lines 639–772. -/
def setUp (pid : ℕ) (o : Options) (conf : Conf) : Script Vars := do
  (query .vzconf).orDo (Prog.exit migErrNoexist)
  (lockCt pid).orDo (Prog.exit migErrLocked)
  let status : Status ← run .status
  checkNodes pid o status
  let remote ← readConf pid
  let ploop : Bool ← run .testDdxml
  return { pid, opts := o, conf, status, remote, ploop }

/-- From the check of the disk layout to the second level quota, lines 772–1069. -/
def transfer (v : Vars) : Script Unit := do
  checkConf v
  copyConf v
  prepare v
  compactSnapshot v
  let top ← getTopDelta v
  syncPrivate v top
  suspendOrStop v top
  syncPrivate2 v
  syncQuota v

/-- Restoring the copy and killing the container, lines 1071–1097. -/
def restoreCopy (v : Vars) : Migration Unit := do
  shared ((act .undump).orDo (giveUp (undoCopyQuota v) migErrRestoreVps))
  shared ((act .dstResume).orDo (giveUp (undoUndump v) migErrRestoreVps))
  clean .kill
  shared (Prog.ignore (act .umount))
  shared (Prog.ignore (act .rmDump))
  shared (Prog.ignore (act .rmDstDump))

/-- Starting or mounting the copy, lines 1099–1120. -/
def startCopy (v : Vars) : Script Unit :=
  if v.status.running then (act .dstStart).orDo (giveUp (undoCopyQuota v) migErrStartVps)
  else if v.status.mounted then (act .dstMount).orDo (giveUp (undoCopyQuota v) migErrMountVps)
  else Prog.when v.diskQuota ((act .dstQuotaOff).orDo (giveUp (undoCopyQuota v) migErrQuota))

/-- The copy takes over, lines 1071–1123. -/
def takeOver (v : Vars) : Migration Unit :=
  if v.opts.online then restoreCopy v else shared (startCopy v)

/-- The end of the script, lines 1125–1134. -/
def finish (removeArea : Bool) (v : Vars) : Migration Unit := do
  clean (if removeArea then .destroy else .moveConf)
  shared (undoLock v.pid)
  Prog.exit 0

/-- `vzmigrate_vz48`, from the check of `$vzconf` on. -/
def vzmigrate (pid : ℕ) (removeArea : Bool) (o : Options) (conf : Conf) : Migration Unit := do
  let v ← shared (setUp pid o conf)
  shared (transfer v)
  takeOver v
  finish removeArea v

/-! ### The container -/

/-- The two nodes. -/
inductive Node
  | src
  | dst
  deriving DecidableEq, Repr

section Writes

variable {M B : Type}

/-- A write of the copy. -/
def writeDst (x : Write M B) (w : World M B) : Option (World M B) :=
  if w.dst.run = .running then
    match x with
    | .mem m => some { w with dst := { w.dst with mem := some m } }
    | .disk path b =>
      some { w with dst := { w.dst with tree := Function.update w.dst.tree path b } }
  else none

/-- A write of the container on one of the nodes. -/
def writeAt : Node × Write M B → World M B → Option (World M B)
  | (.src, x), w => write x w
  | (.dst, x), w => writeDst x w

end Writes

end Parikshan.CloneManager

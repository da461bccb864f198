import Mathlib.Algebra.Order.Ring.Int
import Mathlib.Data.List.Basic
import Mathlib.Data.Option.Basic
import Mathlib.Tactic.Common

/-!
# The options of the aggregator

`parse_options` goes through the options, keeps the argument of the last one of each kind, and then
decides by a few flags whether they suffice. The flag of the option `-x` is the flag of `-m` as
well, and without `-a` and `-s` it is not looked at. A connection handler compares the address of
its peer with `remote_host`; a production handler goes on to connect to `destination_host`, and any
other one compares the address with `duplicate_host`. A host that has not been set is a null
pointer.

## Main definitions

* `Opt`: what `getopt` returns.
* `parseOptions`: `parse_options`.
* `handleClient`: what `handle_client` and `handle_prod_client` do with the hosts.

## Main results

* `handleClient_iff`: the options that suffice for a connection.
* `handleClient_fails`: a configuration that is accepted and does not suffice.
-/

namespace Parikshan.Aggregator

/-- A string of C. -/
abbrev Word : Type := List Char

/-- What `getopt` returns for `"l:h:p:x:d:b:m:n:as"`: an option with its argument if it takes one,
or a question mark. -/
inductive Opt
  | l (optarg : Word)
  | h (optarg : Word)
  | p (optarg : Word)
  | x (optarg : Word)
  | d (optarg : Word)
  | b (optarg : Word)
  | m (optarg : Word)
  | n (optarg : Word)
  | a
  | s
  | unknown
  deriving DecidableEq, Repr

/-- The digits at the start of a string, as a number. -/
def digits (s : Word) : ℤ :=
  (s.takeWhile Char.isDigit).foldl (fun v c => 10 * v + (c.toNat - '0'.toNat)) 0

/-- `isspace`: the blank, and the characters from the tab to the carriage return. -/
def isSpace (c : Char) : Bool := c = ' ' || (9 ≤ c.toNat && c.toNat ≤ 13)

/-- `strtol` in base 10, on 64 bits. -/
def strtol (s : Word) : ℤ :=
  let v := match s.dropWhile isSpace with
    | '-' :: s => -digits s
    | '+' :: s => digits s
    | s => digits s
  max (-2 ^ 63) (min v (2 ^ 63 - 1))

/-- `atoi`. -/
def atoi (s : Word) : ℤ := (strtol s).bmod (2 ^ 32)

/-- The variables that the options set. `local_port` is read only if `-l` has set it. -/
structure Globals where
  l : Bool := false
  h : Bool := false
  pFlag : Bool := false
  x : Bool := false
  d : Bool := false
  a : Bool := false
  s : Bool := false
  b : Bool := false
  asynch : Bool := false
  synch : Bool := false
  localPort : ℤ := 0
  remoteHost : Option Word := none
  remotePort : ℤ := 0
  duplicateHost : Option Word := none
  duplicatePort : ℤ := 0
  destinationHost : Option Word := none
  destinationPort : ℤ := 0
  bufferSize : ℤ := 0
  deriving DecidableEq, Repr

/-- The `switch` of `parse_options`, lines 161–224. -/
def Globals.set (g : Globals) : Opt → Globals
  | .l optarg => { g with localPort := atoi optarg, l := true }
  | .h optarg => { g with remoteHost := some optarg, h := true }
  | .p optarg => { g with remotePort := atoi optarg, pFlag := true }
  | .x optarg => { g with duplicateHost := some optarg, x := true }
  | .d optarg => { g with duplicatePort := atoi optarg, d := true }
  | .m optarg => { g with destinationHost := some optarg, x := true }
  | .n optarg => { g with destinationPort := atoi optarg, d := true }
  | .a => { g with a := true, asynch := true }
  | .s => { g with s := true, synch := true }
  | .b optarg => { g with b := true, bufferSize := atoi optarg }
  | .unknown => g

/-- `parse_options`, lines 155–242, with the value that it returns. -/
def parseOptions (opts : List Opt) : Globals × ℤ :=
  let g := opts.foldl Globals.set {}
  if g.l && g.h && g.pFlag && !g.a && !g.s then (g, g.localPort)
  else if g.l && g.h && g.pFlag && (g.a || g.s) && g.x && g.d then (g, g.localPort)
  else (g, -1)

/-- What a handler does with a connection. -/
inductive Route
  | prod (host : Word) (port : ℤ)
  | clone
  | drop
  deriving DecidableEq, Repr

/-- `handle_client`, lines 277–301, with the connection that `handle_prod_client` makes. There is no
result if it goes by a null pointer. -/
def handleClient (g : Globals) (addr : Word) : Option Route := do
  let remoteHost ← g.remoteHost
  if addr = remoteHost then
    let destinationHost ← g.destinationHost
    return .prod destinationHost g.destinationPort
  else
    let duplicateHost ← g.duplicateHost
    return if addr = duplicateHost then .clone else .drop

/-! ### What the options set -/

/-- The argument of `-h`, of `-x` and of `-m`. -/
def Opt.remoteHost : Opt → Option Word
  | .h optarg => some optarg
  | _ => none

def Opt.duplicateHost : Opt → Option Word
  | .x optarg => some optarg
  | _ => none

def Opt.destinationHost : Opt → Option Word
  | .m optarg => some optarg
  | _ => none

/-- The argument of the last `-h`. -/
def lastHost (opts : List Opt) : Option Word := (opts.filterMap Opt.remoteHost).getLast?

section Set

variable {opts : List Opt} {g : Globals}

/-- A variable that one option sets has the argument of the last such option. -/
theorem foldl_set {var : Globals → Option Word} {arg : Opt → Option Word}
    (hset : ∀ g o, var (g.set o) = (arg o).or (var g)) (opts : List Opt) (g : Globals) :
    var (opts.foldl Globals.set g) = ((opts.filterMap arg).getLast?).or (var g) := by
  induction opts generalizing g with
  | nil => rfl
  | cons o opts ih =>
    rw [List.foldl_cons, ih, hset, List.filterMap_cons]
    cases harg : arg o with
    | none => rfl
    | some v =>
      rw [List.getLast?_cons]
      cases (opts.filterMap arg).getLast? <;> rfl

theorem set_remoteHost (g : Globals) (o : Opt) :
    (g.set o).remoteHost = o.remoteHost.or g.remoteHost := by
  cases o <;> rfl

theorem set_duplicateHost (g : Globals) (o : Opt) :
    (g.set o).duplicateHost = o.duplicateHost.or g.duplicateHost := by
  cases o <;> rfl

theorem set_destinationHost (g : Globals) (o : Opt) :
    (g.set o).destinationHost = o.destinationHost.or g.destinationHost := by
  cases o <;> rfl

/-- The flag of `-h` says whether the remote host is set. -/
theorem foldl_set_h (opts : List Opt) (hg : g.h = g.remoteHost.isSome) :
    (opts.foldl Globals.set g).h = (opts.foldl Globals.set g).remoteHost.isSome := by
  induction opts generalizing g with
  | nil => exact hg
  | cons o opts ih =>
    refine ih ?_
    cases o <;> first | exact hg | rfl

theorem parseOptions_fst (opts : List Opt) :
    (parseOptions opts).1 = opts.foldl Globals.set {} := by
  unfold parseOptions
  dsimp only
  split_ifs <;> rfl

/-- Options that are accepted have a remote host. -/
theorem lastHost_isSome (h : 0 ≤ (parseOptions opts).2) : (lastHost opts).isSome = true := by
  have hremote := foldl_set set_remoteHost opts {}
  have hflag := foldl_set_h opts (g := {}) rfl
  rw [Option.or_none] at hremote
  rw [lastHost, ← hremote, ← hflag]
  unfold parseOptions at h
  dsimp only at h
  split_ifs at h with h₁ h₂
  · simp only [Bool.and_eq_true] at h₁
    exact h₁.1.1.1.2
  · simp only [Bool.and_eq_true] at h₂
    exact h₂.1.1.1.1.2
  · simp at h

theorem isSome_getLast?_filterMap {arg : Opt → Option Word} :
    ((opts.filterMap arg).getLast?).isSome = true ↔ ∃ o ∈ opts, ∃ v, arg o = some v := by
  rw [List.getLast?_isSome]
  constructor
  · intro h
    obtain ⟨v, hv⟩ := List.exists_mem_of_ne_nil _ h
    obtain ⟨o, ho, hov⟩ := List.mem_filterMap.mp hv
    exact ⟨o, ho, v, hov⟩
  · rintro ⟨o, ho, v, hov⟩
    exact List.ne_nil_of_mem (List.mem_filterMap.mpr ⟨o, ho, hov⟩)

end Set

/-! ### Connections -/

/-- **The options that suffice.** With options that are accepted, the handler of a connection uses
only hosts that have been set if and only if, with the address of the last `-h`, there is an option
`-m`, and with any other address, an option `-x`. -/
theorem handleClient_iff {opts : List Opt} (addr : Word) (h : 0 ≤ (parseOptions opts).2) :
    (∃ route, handleClient (parseOptions opts).1 addr = some route) ↔
      if lastHost opts = some addr then ∃ host, Opt.m host ∈ opts
      else ∃ host, Opt.x host ∈ opts := by
  obtain ⟨host, hhost⟩ := Option.isSome_iff_exists.mp (lastHost_isSome h)
  have hremote := foldl_set set_remoteHost opts {}
  have hduplicate := foldl_set set_duplicateHost opts {}
  have hdestination := foldl_set set_destinationHost opts {}
  rw [Option.or_none] at hremote hduplicate hdestination
  rw [← lastHost, hhost] at hremote
  have hx : (∃ host, Opt.x host ∈ opts) ↔
      ((opts.filterMap Opt.duplicateHost).getLast?).isSome = true := by
    rw [isSome_getLast?_filterMap]
    refine ⟨fun ⟨v, hv⟩ => ⟨_, hv, v, rfl⟩, fun ⟨o, ho, v, hv⟩ => ?_⟩
    cases o <;> first | exact ⟨_, ho⟩ | cases hv
  have hm : (∃ host, Opt.m host ∈ opts) ↔
      ((opts.filterMap Opt.destinationHost).getLast?).isSome = true := by
    rw [isSome_getLast?_filterMap]
    refine ⟨fun ⟨v, hv⟩ => ⟨_, hv, v, rfl⟩, fun ⟨o, ho, v, hv⟩ => ?_⟩
    cases o <;> first | exact ⟨_, ho⟩ | cases hv
  rw [hx, hm, parseOptions_fst, handleClient, hremote, hduplicate, hdestination]
  by_cases haddr : addr = host
  · rw [if_pos (haddr ▸ hhost)]
    cases (opts.filterMap Opt.destinationHost).getLast? <;> simp [haddr]
  · rw [if_neg fun h => haddr (Option.some.inj (h.symm.trans hhost))]
    cases (opts.filterMap Opt.duplicateHost).getLast? <;> simp [haddr]

/-- Options for a production and a backend host. -/
def exampleOptions : List Opt :=
  [.l ['8', '0', '8', '0'], .h ['1', '0', '.', '0', '.', '0', '.', '1'], .p ['8', '0'],
    .m ['1', '0', '.', '0', '.', '0', '.', '3']]

theorem handleClient_iff_production :
    (0 ≤ (parseOptions exampleOptions).2) ∧
      ((∃ route, handleClient (parseOptions exampleOptions).1
          ['1', '0', '.', '0', '.', '0', '.', '1'] = some route) ↔
        if lastHost exampleOptions = some ['1', '0', '.', '0', '.', '0', '.', '1'] then
          ∃ host, Opt.m host ∈ exampleOptions
        else ∃ host, Opt.x host ∈ exampleOptions) :=
  ⟨by decide, handleClient_iff _ (by decide)⟩

/-- **Options that do not suffice.** They are accepted, and the first connection from an address
other than the remote host goes by the null pointer `duplicate_host`. -/
theorem handleClient_fails :
    ¬ ∀ (opts : List Opt) (addr : Word), 0 ≤ (parseOptions opts).2 →
      ∃ route, handleClient (parseOptions opts).1 addr = some route := by
  intro hall
  obtain ⟨route, hroute⟩ := hall exampleOptions ['1', '0', '.', '0', '.', '0', '.', '2'] (by decide)
  have hnone : handleClient (parseOptions exampleOptions).1
      ['1', '0', '.', '0', '.', '0', '.', '2'] = none := by decide
  rw [hnone] at hroute
  cases hroute

end Parikshan.Aggregator

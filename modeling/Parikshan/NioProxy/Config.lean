import Mathlib.Algebra.GroupWithZero.Nat
import Mathlib.Data.Finset.Dedup
import Mathlib.Data.Finset.Insert
import Mathlib.Data.Finset.Sort
import Mathlib.Data.List.AList
import Mathlib.Data.List.Perm.Basic
import Mathlib.Data.String.Basic
import Parikshan.NioProxy.Server

/-!
# The configuration of the NIO proxy

`TcpProxyRunner.main` reads a file of properties, makes of it one configuration a proxy with
`TcpProxyConfigParser.parse`, divides the cores of the machine among the proxies and starts them
one after the other. A property belongs to the proxy whose name stands before its last dot, so
that the name of a proxy may have dots itself.

The properties are an association list in which no name occurs twice, in the order in which
`propertyNames` enumerates them. Three things are left to the library: the order in which a
`HashSet` is gone through (`Iteration`), which characters other than those of ASCII are digits
(`Digits`), and how the file is read.

## Main definitions

* `Properties`, `StaticTcpProxyConfig`: what is read and what is made of it.
* `parse`: `TcpProxyConfigParser.parse`, with `proxyName`, `findProperty` and
  `findIntegerProperty`.
* `render`: the properties of a list of proxies.
* `Fault`: what an exception may say.
* `TcpProxyRunner.run`: `main`, from line 45 on.

## Main results

* `parse_eq_ok_iff`: what is accepted, and what it is read as.
* `parse_error`: what an exception says of the properties.
* `parse_render`: proxies with distinct names are read back.
* `TcpProxyRunner.run_started`: which servers are started, and with how many workers.
-/

namespace Parikshan.NioProxy

/-! ### What the library provides -/

/-- `java.util.Properties`, in the order in which its names are enumerated. -/
abbrev Properties := AList fun _ : String => String

/-- The order in which a `HashSet` is gone through. -/
structure Iteration where
  order : Finset String → List String
  nodup : ∀ s, (order s).Nodup
  mem_order : ∀ s a, a ∈ order s ↔ a ∈ s

/-- `Character.digit` for radix ten. -/
structure Digits where
  digit : Char → Option ℕ
  digit_digitChar : ∀ d < 10, digit d.digitChar = some d

/-- `String.lastIndexOf`, where `none` is `-1`. -/
def lastIndexOf (c : Char) : List Char → Option ℕ
  | [] => none
  | x :: xs =>
    match lastIndexOf c xs with
    | some i => some (i + 1)
    | none => if x = c then some 0 else none

namespace Digits

variable (D : Digits)

/-- The digits of a number, of which there is at least one. -/
def magnitude (cs : List Char) : Option ℕ :=
  if cs = [] then none
  else cs.foldlM (fun n c => (D.digit c).map fun d => 10 * n + d) 0

/-- `Integer.parseInt`, where `none` is a `NumberFormatException`. -/
def parseInt (s : String) : Option ℤ :=
  let value : Option ℤ :=
    match s.toList with
    | '-' :: cs => (D.magnitude cs).map fun n => -(n : ℤ)
    | '+' :: cs => (D.magnitude cs).map fun n => (n : ℤ)
    | cs => (D.magnitude cs).map fun n => (n : ℤ)
  value.filter fun n => -2147483648 ≤ n ∧ n ≤ 2147483647

end Digits

/-! ### The parser -/

/-- `StaticTcpProxyConfig`. -/
structure StaticTcpProxyConfig where
  localPort : ℤ
  remoteHost : String
  remotePort : ℤ
  workerCount : ℤ := 0
  deriving DecidableEq, Repr

/-- The name of the proxy to which a property belongs, lines 28–32. -/
def proxyName (propertyName : String) : Except String String :=
  match lastIndexOf '.' propertyName.toList with
  | none => throw ("Invalid property " ++ propertyName ++
      " should be <proxy name>.localPort|remotePort|remoteHost")
  | some dotIndex => pure (String.ofList (propertyName.toList.take dotIndex))

/-- The names of the proxies, lines 25–33. -/
def proxyNames (propertySet : List String) : Except String (Finset String) :=
  propertySet.foldlM
    (fun names propertyName => do return insert (← proxyName propertyName) names) ∅

/-- `findProperty`. -/
def findProperty (properties : Properties) (key : String) : Except String String :=
  match properties.lookup key with
  | none => throw ("Please specify " ++ key)
  | some value => pure value

section Parser

variable (D : Digits) (it : Iteration) (properties : Properties)

/-- `findIntegerProperty`. -/
def findIntegerProperty (key : String) : Except String ℤ := do
  let value ← findProperty properties key
  match D.parseInt value with
  | none => throw ("Invalid integer " ++ key ++ " = " ++ value)
  | some n => pure n

/-- The configuration of a proxy, lines 38–42. -/
def proxyConfig (proxyName : String) : Except String StaticTcpProxyConfig := do
  let localPort ← findIntegerProperty D properties (proxyName ++ ".localPort")
  let remotePort ← findIntegerProperty D properties (proxyName ++ ".remotePort")
  let remoteHost ← findProperty properties (proxyName ++ ".remoteHost")
  return { localPort, remoteHost, remotePort }

/-- `TcpProxyConfigParser.parse`. -/
def parse : Except String (List StaticTcpProxyConfig) := do
  let names ← proxyNames properties.keys
  if names = ∅ then throw "Please specify at least one proxy."
  (it.order names).mapM (proxyConfig D properties)

end Parser

/-- The properties of a list of proxies. -/
def render (proxies : List (String × StaticTcpProxyConfig)) :
    List (Sigma fun _ : String => String) :=
  proxies.flatMap fun p => [⟨p.1 ++ ".localPort", p.2.localPort.repr⟩,
    ⟨p.1 ++ ".remotePort", p.2.remotePort.repr⟩, ⟨p.1 ++ ".remoteHost", p.2.remoteHost⟩]

/-! ### Numbers -/

namespace Digits

variable (D : Digits)

theorem magnitude_toDigits (n : ℕ) : D.magnitude (Nat.toDigits 10 n) = some n := by
  rw [magnitude, if_neg Nat.toDigits_ne_nil]
  induction n using Nat.strong_induction_on with
  | _ n ih =>
    by_cases hn : n < 10
    · rw [Nat.toDigits_of_lt_base hn]
      simp [D.digit_digitChar n hn]
    · have hlt : n / 10 < n := by omega
      rw [Nat.toDigits_of_base_le (by decide) (Nat.le_of_not_lt hn), List.foldlM_append,
        ih (n / 10) hlt]
      simp [D.digit_digitChar (n % 10) (Nat.mod_lt n (by decide)), Nat.div_add_mod]

/-- What `Integer.toString` prints is read back. -/
theorem parseInt_repr {n : ℤ} (hn : -2147483648 ≤ n ∧ n ≤ 2147483647) :
    D.parseInt n.repr = some n := by
  by_cases hneg : 0 ≤ n
  · have hrepr : n.repr.toList = Nat.toDigits 10 n.toNat := by
      rw [Int.repr_eq_if, if_pos hneg, Nat.toList_repr]
    have hdigit (c : Char) (hc : c ∈ Nat.toDigits 10 n.toNat) : c.isDigit = true :=
      Nat.isDigit_of_mem_toDigits (by decide) (by decide) hc
    unfold parseInt
    rw [hrepr]
    split
    · next cs hcs => exact absurd (hdigit '-' (hcs ▸ List.mem_cons_self)) (by decide)
    · next cs hcs => exact absurd (hdigit '+' (hcs ▸ List.mem_cons_self)) (by decide)
    · simp [magnitude_toDigits, Int.toNat_of_nonneg hneg, Option.filter, hn]
  · have hrepr : n.repr.toList = '-' :: Nat.toDigits 10 (-n).toNat := by
      rw [Int.repr_eq_if, if_neg hneg, String.toList_append, Nat.toList_repr]
      rfl
    have hcast : ((-n).toNat : ℤ) = -n := Int.toNat_of_nonneg (by omega)
    unfold parseInt
    rw [hrepr]
    simp [magnitude_toDigits, hcast, Option.filter, hn]

end Digits

/-! ### Names -/

section Names

variable {c : Char} {xs ys : List Char} {i : ℕ} {key name suffix : String}

theorem lastIndexOf_append (h : c ∉ ys) : lastIndexOf c (xs ++ c :: ys) = some xs.length := by
  have hnone : lastIndexOf c ys = none := by
    induction ys with
    | nil => rfl
    | cons y ys ih =>
      rw [List.mem_cons, not_or] at h
      simp [lastIndexOf, ih h.2, Ne.symm h.1]
  induction xs with
  | nil => simp [lastIndexOf, hnone]
  | cons x xs ih => simp [lastIndexOf, ih]

theorem lastIndexOf_eq_none : lastIndexOf c xs = none ↔ c ∉ xs := by
  induction xs with
  | nil => simp [lastIndexOf]
  | cons x xs ih =>
    cases h : lastIndexOf c xs with
    | none =>
      rw [h] at ih
      simp [lastIndexOf, h, ih.mp rfl, eq_comm]
    | some i =>
      have hmem : c ∈ xs := by
        by_contra hc
        simp [ih.mpr hc] at h
      simp [lastIndexOf, h, hmem]

/-- A list that has a character is cut at its last occurrence. -/
theorem exists_of_mem (h : c ∈ xs) : ∃ ys zs, xs = ys ++ c :: zs ∧ c ∉ zs := by
  induction xs with
  | nil => cases h
  | cons x xs ih =>
    by_cases hc : c ∈ xs
    · obtain ⟨ys, zs, rfl, hzs⟩ := ih hc
      exact ⟨x :: ys, zs, rfl, hzs⟩
    · obtain rfl := (List.mem_cons.mp h).resolve_right hc
      exact ⟨[], xs, rfl, hc⟩

theorem proxyName_append (h : '.' ∉ suffix.toList) :
    proxyName (name ++ "." ++ suffix) = .ok name := by
  have hlist : (name ++ "." ++ suffix).toList = name.toList ++ '.' :: suffix.toList := by
    simp [String.toList_append]
  rw [proxyName, hlist, lastIndexOf_append h]
  simp [String.ofList_toList, pure, Except.pure]

/-- A property belongs to the proxy whose name stands before its last dot. -/
theorem proxyName_eq_ok_iff :
    proxyName key = .ok name ↔
      ∃ suffix : String, '.' ∉ suffix.toList ∧ key = name ++ "." ++ suffix := by
  refine ⟨fun h => ?_, ?_⟩
  · by_cases hdot : '.' ∈ key.toList
    · obtain ⟨ys, zs, hkey, hzs⟩ := exists_of_mem hdot
      have hcut : key = String.ofList ys ++ "." ++ String.ofList zs := by
        apply String.toList_inj.mp
        simp [hkey, String.toList_append]
      have hsuffix : '.' ∉ (String.ofList zs).toList := by rwa [String.toList_ofList]
      rw [hcut, proxyName_append hsuffix, Except.ok.injEq] at h
      exact ⟨String.ofList zs, hsuffix, h ▸ hcut⟩
    · rw [proxyName, lastIndexOf_eq_none.mpr hdot] at h
      cases h
  · rintro ⟨suffix, hsuffix, rfl⟩
    exact proxyName_append hsuffix

theorem exists_proxyName_iff : (∃ name, proxyName key = .ok name) ↔ '.' ∈ key.toList := by
  constructor
  · rintro ⟨name, h⟩
    obtain ⟨suffix, -, rfl⟩ := proxyName_eq_ok_iff.mp h
    simp [String.toList_append]
  · intro h
    cases hindex : lastIndexOf '.' key.toList with
    | none => exact absurd h (lastIndexOf_eq_none.mp hindex)
    | some i => exact ⟨_, by rw [proxyName, hindex]; rfl⟩

end Names

/-! ### Loops that may throw -/

section Loops

variable {α β ε : Type} {x : Except ε α} {f : α → Except ε β} {l : List α} {b : β} {bs : List β}
  {e : ε}

theorem bind_eq_ok_iff : x >>= f = .ok b ↔ ∃ a, x = .ok a ∧ f a = .ok b := by
  cases x <;> simp [bind, Except.bind]

theorem bind_eq_error_iff :
    x >>= f = .error e ↔ x = .error e ∨ ∃ a, x = .ok a ∧ f a = .error e := by
  cases x <;> simp [bind, Except.bind]

theorem mapM_eq_ok_iff : l.mapM f = .ok bs ↔ List.Forall₂ (fun a b => f a = .ok b) l bs := by
  induction l generalizing bs with
  | nil => cases bs <;> simp [pure, Except.pure]
  | cons a l ih =>
    simp only [List.mapM_cons, bind_eq_ok_iff, ih, List.forall₂_cons_left_iff]
    constructor
    · rintro ⟨b, ha, bs', hl, hbs⟩
      cases hbs
      exact ⟨b, bs', ha, hl, rfl⟩
    · rintro ⟨b, bs', ha, hl, rfl⟩
      exact ⟨b, ha, bs', hl, rfl⟩

theorem exists_of_mapM_eq_error (h : l.mapM f = .error e) : ∃ a ∈ l, f a = .error e := by
  induction l with
  | nil => cases h
  | cons a l ih =>
    rw [List.mapM_cons, bind_eq_error_iff] at h
    obtain ha | ⟨b, -, h⟩ := h
    · exact ⟨a, List.mem_cons_self, ha⟩
    · obtain hl | ⟨bs, -, h⟩ := bind_eq_error_iff.mp h
      · obtain ⟨a', hmem, ha'⟩ := ih hl
        exact ⟨a', List.mem_cons_of_mem _ hmem, ha'⟩
      · cases h

end Loops

/-! ### What is accepted -/

section Accepted

variable (D : Digits) (it : Iteration) (properties : Properties)

/-- The name of a proxy: some property has it before its last dot. -/
def IsProxy (name : String) : Prop :=
  ∃ suffix : String, '.' ∉ suffix.toList ∧ name ++ "." ++ suffix ∈ properties

/-- An integer property. -/
def IsInteger (key : String) (n : ℤ) : Prop :=
  ∃ value, properties.lookup key = some value ∧ D.parseInt value = some n

/-- What the properties say of a proxy. -/
structure Describes (name : String) (c : StaticTcpProxyConfig) : Prop where
  localPort : IsInteger D properties (name ++ ".localPort") c.localPort
  remotePort : IsInteger D properties (name ++ ".remotePort") c.remotePort
  remoteHost : properties.lookup (name ++ ".remoteHost") = some c.remoteHost
  workerCount : c.workerCount = 0

variable {D it properties} {keys : List String} {s names : Finset String} {key name : String}

theorem foldlM_proxyName :
    keys.foldlM (fun names key => do return insert (← proxyName key) names) s =
        (.ok names : Except String (Finset String)) ↔
      (∀ key ∈ keys, '.' ∈ key.toList) ∧
        ∀ name, name ∈ names ↔ name ∈ s ∨ ∃ key ∈ keys, proxyName key = .ok name := by
  induction keys generalizing s with
  | nil => simp [pure, Except.pure, Finset.ext_iff, iff_comm]
  | cons key keys ih =>
    rw [List.foldlM_cons]
    cases hkey : proxyName key with
    | error e =>
      have hdot : '.' ∉ key.toList := by simp [← exists_proxyName_iff, hkey]
      simp [bind, Except.bind, hdot]
    | ok n =>
      have hdot : '.' ∈ key.toList := exists_proxyName_iff.mp ⟨n, hkey⟩
      simp only [bind, Except.bind, pure, Except.pure] at ih ⊢
      rw [ih]
      simp only [List.forall_mem_cons, hdot, true_and, List.exists_mem_cons_iff, hkey,
        Except.ok.injEq, Finset.mem_insert]
      refine and_congr_right fun _ => forall_congr' fun name => ?_
      rw [or_assoc, or_left_comm, @eq_comm _ name n]

/-- The names of the proxies are found if every property has one. -/
theorem proxyNames_eq_ok_iff : proxyNames properties.keys = .ok names ↔
    (∀ key ∈ properties, '.' ∈ key.toList) ∧ ∀ name, name ∈ names ↔ IsProxy properties name := by
  have hname (name : String) :
      (∃ key ∈ properties.keys, proxyName key = .ok name) ↔ IsProxy properties name := by
    simp only [proxyName_eq_ok_iff, IsProxy]
    constructor
    · rintro ⟨key, hkey, suffix, hsuffix, rfl⟩
      exact ⟨suffix, hsuffix, hkey⟩
    · rintro ⟨suffix, hsuffix, hkey⟩
      exact ⟨_, hkey, suffix, hsuffix, rfl⟩
  rw [proxyNames, foldlM_proxyName]
  simp only [hname, Finset.notMem_empty, false_or]
  rfl

theorem findProperty_eq_ok_iff {value : String} :
    findProperty properties key = .ok value ↔ properties.lookup key = some value := by
  unfold findProperty
  cases properties.lookup key <;> simp [throw, throwThe, MonadExceptOf.throw, pure, Except.pure]

theorem findIntegerProperty_eq_ok_iff {n : ℤ} :
    findIntegerProperty D properties key = .ok n ↔ IsInteger D properties key n := by
  simp only [findIntegerProperty, bind_eq_ok_iff, findProperty_eq_ok_iff, IsInteger]
  refine exists_congr fun value => and_congr_right fun _ => ?_
  cases D.parseInt value <;> simp [throw, throwThe, MonadExceptOf.throw, pure, Except.pure]

theorem proxyConfig_eq_ok_iff {c : StaticTcpProxyConfig} :
    proxyConfig D properties name = .ok c ↔ Describes D properties name c := by
  simp only [proxyConfig, bind_eq_ok_iff, findIntegerProperty_eq_ok_iff, findProperty_eq_ok_iff]
  constructor
  · rintro ⟨localPort, hlocal, remotePort, hremote, remoteHost, hhost, hc⟩
    cases hc
    exact ⟨hlocal, hremote, hhost, rfl⟩
  · rintro ⟨hlocal, hremote, hhost, hcount⟩
    refine ⟨_, hlocal, _, hremote, _, hhost, ?_⟩
    rw [← hcount]
    rfl

/-- No name is found only if there is no property. -/
theorem names_eq_empty_iff (h : proxyNames properties.keys = .ok names) :
    names = ∅ ↔ properties.keys = [] := by
  obtain ⟨hdots, hnames⟩ := proxyNames_eq_ok_iff.mp h
  constructor
  · intro hnone
    refine List.eq_nil_iff_forall_not_mem.mpr fun key hkey => ?_
    obtain ⟨name, hname⟩ := exists_proxyName_iff.mpr (hdots key hkey)
    obtain ⟨suffix, hsuffix, rfl⟩ := proxyName_eq_ok_iff.mp hname
    have hmem := (hnames name).mpr ⟨suffix, hsuffix, hkey⟩
    simp [hnone] at hmem
  · intro hkeys
    rw [hkeys] at h
    cases h
    rfl

theorem mapM_proxyConfig_eq_ok_iff {ns : List String} {cs : List StaticTcpProxyConfig} :
    ns.mapM (proxyConfig D properties) = .ok cs ↔ List.Forall₂ (Describes D properties) ns cs := by
  simp only [mapM_eq_ok_iff, proxyConfig_eq_ok_iff]

theorem parse_of_describes {cs : List StaticTcpProxyConfig} (hkeys : properties.keys ≠ [])
    (hdots : ∀ key ∈ properties, '.' ∈ key.toList)
    (hnames : ∀ name, name ∈ names ↔ IsProxy properties name)
    (hcs : List.Forall₂ (Describes D properties) (it.order names) cs) :
    parse D it properties = .ok cs := by
  have hok := proxyNames_eq_ok_iff.mpr ⟨hdots, hnames⟩
  have hne : names ≠ ∅ := fun hnone => hkeys ((names_eq_empty_iff hok).mp hnone)
  simp only [parse, hok, bind, Except.bind, hne, if_false]
  exact mapM_proxyConfig_eq_ok_iff.mpr hcs

/-- **What is accepted.** There is at least one property, every property belongs to a proxy, and
every proxy has its two ports, which are integers, and its host; they are read as one configuration
a proxy. Other properties of a proxy are ignored, but make it one. -/
theorem parse_eq_ok_iff {cs : List StaticTcpProxyConfig} :
    parse D it properties = .ok cs ↔
      properties.keys ≠ [] ∧ (∀ key ∈ properties, '.' ∈ key.toList) ∧
        ∃ names : Finset String, (∀ name, name ∈ names ↔ IsProxy properties name) ∧
          List.Forall₂ (Describes D properties) (it.order names) cs := by
  constructor
  · intro h
    obtain ⟨names, hok, h⟩ := bind_eq_ok_iff.mp h
    obtain ⟨hdots, hnames⟩ := proxyNames_eq_ok_iff.mp hok
    split_ifs at h with hnone
    · cases h
    · exact ⟨fun hkeys => hnone ((names_eq_empty_iff hok).mpr hkeys), hdots, names, hnames,
        mapM_proxyConfig_eq_ok_iff.mp h⟩
  · rintro ⟨hkeys, hdots, names, hnames, hcs⟩
    exact parse_of_describes hkeys hdots hnames hcs

end Accepted

/-! ### What an exception says -/

section Faults

variable (D : Digits) (it : Iteration) (properties : Properties)

/-- What an exception says of the properties: it names a property that is in fault. -/
inductive Fault : String → Prop
  | noName {key : String} (hkey : key ∈ properties) (hdot : '.' ∉ key.toList) :
      Fault ("Invalid property " ++ key ++
        " should be <proxy name>.localPort|remotePort|remoteHost")
  | noProxy (hkeys : properties.keys = []) : Fault "Please specify at least one proxy."
  | missing {name key : String} (hname : IsProxy properties name)
      (hkey : key ∈ [name ++ ".localPort", name ++ ".remotePort", name ++ ".remoteHost"])
      (hnone : properties.lookup key = none) : Fault ("Please specify " ++ key)
  | noInteger {name key value : String} (hname : IsProxy properties name)
      (hkey : key ∈ [name ++ ".localPort", name ++ ".remotePort"])
      (hvalue : properties.lookup key = some value) (hnone : D.parseInt value = none) :
      Fault ("Invalid integer " ++ key ++ " = " ++ value)

variable {D it properties} {key name e : String}

theorem findProperty_eq_error (h : findProperty properties key = .error e) :
    properties.lookup key = none ∧ e = "Please specify " ++ key := by
  unfold findProperty at h
  cases hvalue : properties.lookup key with
  | none =>
    rw [hvalue] at h
    cases h
    exact ⟨rfl, rfl⟩
  | some value =>
    rw [hvalue] at h
    cases h

theorem fault_of_findProperty (hname : IsProxy properties name)
    (hkey : key ∈ [name ++ ".localPort", name ++ ".remotePort", name ++ ".remoteHost"])
    (h : findProperty properties key = .error e) : Fault D properties e := by
  obtain ⟨hnone, rfl⟩ := findProperty_eq_error h
  exact .missing hname hkey hnone

theorem fault_of_findIntegerProperty (hname : IsProxy properties name)
    (hkey : key ∈ [name ++ ".localPort", name ++ ".remotePort"])
    (h : findIntegerProperty D properties key = .error e) : Fault D properties e := by
  obtain hnone | ⟨value, hvalue, h⟩ := bind_eq_error_iff.mp h
  · refine fault_of_findProperty hname ?_ hnone
    simp only [List.mem_cons, List.not_mem_nil, or_false] at hkey ⊢
    exact hkey.imp_right Or.inl
  · cases hn : D.parseInt value with
    | none =>
      rw [hn] at h
      cases h
      exact .noInteger hname hkey (findProperty_eq_ok_iff.mp hvalue) hn
    | some n =>
      rw [hn] at h
      cases h

theorem fault_of_proxyConfig (hname : IsProxy properties name)
    (h : proxyConfig D properties name = .error e) : Fault D properties e := by
  obtain hlocal | ⟨localPort, -, h⟩ := bind_eq_error_iff.mp h
  · exact fault_of_findIntegerProperty hname (by simp) hlocal
  obtain hremote | ⟨remotePort, -, h⟩ := bind_eq_error_iff.mp h
  · exact fault_of_findIntegerProperty hname (by simp) hremote
  obtain hhost | ⟨remoteHost, -, h⟩ := bind_eq_error_iff.mp h
  · exact fault_of_findProperty hname (by simp) hhost
  · cases h

theorem foldlM_proxyName_eq_error {keys : List String} {s : Finset String}
    (h : keys.foldlM (fun names key => do return insert (← proxyName key) names) s =
      (.error e : Except String (Finset String))) : ∃ key ∈ keys, proxyName key = .error e := by
  induction keys generalizing s with
  | nil => cases h
  | cons key keys ih =>
    rw [List.foldlM_cons, bind_eq_error_iff] at h
    obtain hkey | ⟨names, -, h⟩ := h
    · obtain hkey | ⟨n, -, h⟩ := bind_eq_error_iff.mp hkey
      · exact ⟨key, List.mem_cons_self, hkey⟩
      · cases h
    · obtain ⟨key', hmem, he⟩ := ih h
      exact ⟨key', List.mem_cons_of_mem _ hmem, he⟩

theorem proxyName_eq_error (h : proxyName key = .error e) :
    '.' ∉ key.toList ∧ e = "Invalid property " ++ key ++
      " should be <proxy name>.localPort|remotePort|remoteHost" := by
  unfold proxyName at h
  split at h
  · next hnone =>
    cases h
    exact ⟨lastIndexOf_eq_none.mp hnone, rfl⟩
  · cases h

/-- Every exception names a property that is in fault, and why it is. -/
theorem parse_error (h : parse D it properties = .error e) : Fault D properties e := by
  obtain hnames | ⟨names, hnames, h⟩ := bind_eq_error_iff.mp h
  · obtain ⟨key, hkey, he⟩ := foldlM_proxyName_eq_error hnames
    obtain ⟨hdot, rfl⟩ := proxyName_eq_error he
    exact .noName hkey hdot
  · split_ifs at h with hnone
    · cases h
      exact .noProxy ((names_eq_empty_iff hnames).mp hnone)
    · obtain ⟨name, hmem, he⟩ := exists_of_mapM_eq_error h
      have hname := (proxyNames_eq_ok_iff.mp hnames).2 name
      exact fault_of_proxyConfig (hname.mp ((it.mem_order names name).mp hmem)) he

end Faults

/-! ### Proxies are read back -/

section Render

variable {D : Digits} {it : Iteration} {properties : Properties}
  {proxies : List (String × StaticTcpProxyConfig)} {name : String}

/-- The ports are of type `int`, and the count of workers has not been set. -/
structure StaticTcpProxyConfig.Fits (c : StaticTcpProxyConfig) : Prop where
  localPort : -2147483648 ≤ c.localPort ∧ c.localPort ≤ 2147483647
  remotePort : -2147483648 ≤ c.remotePort ∧ c.remotePort ≤ 2147483647
  workerCount : c.workerCount = 0

/-- A property of a rendered list belongs to one of the proxies. -/
theorem proxyName_of_mem_render {x : Sigma fun _ : String => String} (hx : x ∈ render proxies) :
    ∃ p ∈ proxies, proxyName x.1 = .ok p.1 := by
  obtain ⟨p, hp, hx⟩ := List.mem_flatMap.mp hx
  refine ⟨p, hp, ?_⟩
  simp only [List.mem_cons, List.not_mem_nil, or_false] at hx
  rcases hx with rfl | rfl | rfl
  · exact proxyName_eq_ok_iff.mpr ⟨"localPort", by decide, by rw [String.append_assoc]; rfl⟩
  · exact proxyName_eq_ok_iff.mpr ⟨"remotePort", by decide, by rw [String.append_assoc]; rfl⟩
  · exact proxyName_eq_ok_iff.mpr ⟨"remoteHost", by decide, by rw [String.append_assoc]; rfl⟩

theorem exists_entry {key : String} (h : key ∈ properties) :
    ∃ value, (⟨key, value⟩ : Sigma fun _ : String => String) ∈ properties.entries := by
  obtain ⟨⟨key', value⟩, hmem, rfl⟩ := List.mem_map.mp h
  exact ⟨value, hmem⟩

theorem isProxy_of_perm (hp : properties.entries.Perm (render proxies)) :
    IsProxy properties name ↔ name ∈ proxies.map Prod.fst := by
  constructor
  · rintro ⟨suffix, hsuffix, hkey⟩
    obtain ⟨value, hmem⟩ := exists_entry hkey
    obtain ⟨p, hmem, hname⟩ := proxyName_of_mem_render (hp.mem_iff.mp hmem)
    rw [proxyName_append hsuffix, Except.ok.injEq] at hname
    exact List.mem_map.mpr ⟨p, hmem, hname.symm⟩
  · intro hname
    obtain ⟨p, hmem, rfl⟩ := List.mem_map.mp hname
    have hentry : (⟨p.1 ++ ".localPort", p.2.localPort.repr⟩ : Sigma fun _ : String => String) ∈
        properties.entries :=
      hp.mem_iff.mpr (List.mem_flatMap.mpr ⟨p, hmem, List.mem_cons_self⟩)
    refine ⟨"localPort", by decide, ?_⟩
    rw [String.append_assoc]
    exact List.mem_map.mpr ⟨_, hentry, rfl⟩

theorem describes_of_perm (hp : properties.entries.Perm (render proxies))
    {p : String × StaticTcpProxyConfig} (hmem : p ∈ proxies) (hfits : p.2.Fits) :
    Describes D properties p.1 p.2 := by
  have hlookup {key value : String} (h : (⟨key, value⟩ : Sigma fun _ : String => String) ∈
      [(⟨p.1 ++ ".localPort", p.2.localPort.repr⟩ : Sigma fun _ : String => String),
        ⟨p.1 ++ ".remotePort", p.2.remotePort.repr⟩, ⟨p.1 ++ ".remoteHost", p.2.remoteHost⟩]) :
      properties.lookup key = some value :=
    AList.mem_lookup_iff.mpr (hp.mem_iff.mpr (List.mem_flatMap.mpr ⟨p, hmem, h⟩))
  exact ⟨⟨_, hlookup (by simp), D.parseInt_repr hfits.localPort⟩,
    ⟨_, hlookup (by simp), D.parseInt_repr hfits.remotePort⟩, hlookup (by simp), hfits.workerCount⟩

theorem parse_of_perm (hne : proxies ≠ []) (hp : properties.entries.Perm (render proxies))
    {cs : List StaticTcpProxyConfig}
    (hcs : List.Forall₂ (Describes D properties) (it.order (proxies.map Prod.fst).toFinset) cs) :
    parse D it properties = .ok cs := by
  have hkeys : properties.keys ≠ [] := by
    obtain ⟨p, rest, rfl⟩ := List.exists_cons_of_ne_nil hne
    obtain ⟨suffix, -, hkey⟩ := (isProxy_of_perm hp).mpr (by simp : p.1 ∈ _)
    exact List.ne_nil_of_mem hkey
  have hdots (key : String) (hkey : key ∈ properties) : '.' ∈ key.toList := by
    obtain ⟨value, hmem⟩ := exists_entry hkey
    obtain ⟨p, -, hname⟩ := proxyName_of_mem_render (hp.mem_iff.mp hmem)
    exact exists_proxyName_iff.mp ⟨p.1, hname⟩
  refine parse_of_describes hkeys hdots (fun name => ?_) hcs
  rw [List.mem_toFinset, isProxy_of_perm hp]

/-- **Round trip.** Proxies with distinct names, which may have dots, are read back from their
properties, in whatever order these are enumerated and the names are gone through. -/
theorem parse_render (hne : proxies ≠ []) (hnodup : (proxies.map Prod.fst).Nodup)
    (hfits : ∀ p ∈ proxies, p.2.Fits) (hp : properties.entries.Perm (render proxies)) :
    ∃ cs, parse D it properties = .ok cs ∧ cs.Perm (proxies.map Prod.snd) := by
  have horder : (it.order (proxies.map Prod.fst).toFinset).Perm (proxies.map Prod.fst) :=
    (List.perm_ext_iff_of_nodup (it.nodup _) hnodup).mpr fun name => by
      rw [it.mem_order, List.mem_toFinset]
  have hall : List.Forall₂ (Describes D properties) (proxies.map Prod.fst)
      (proxies.map Prod.snd) := by
    rw [List.forall₂_map_left_iff, List.forall₂_map_right_iff, List.forall₂_same]
    exact fun p hmem => describes_of_perm hp hmem (hfits p hmem)
  obtain ⟨cs, hcs, hperm⟩ := List.perm_comp_forall₂ horder hall
  exact ⟨cs, parse_of_perm hne hp hcs, hperm⟩

/-- `Character.digit` on the characters of ASCII. -/
def asciiDigits : Digits where
  digit c := if c.isDigit then some (c.toNat - 48) else none
  digit_digitChar := by decide

/-- The names in ascending order. -/
def ascending : Iteration where
  order s := s.sort
  nodup s := s.sort_nodup _
  mem_order s a := s.mem_sort _

/-- The name of a proxy, with a dot, before that of another one. -/
def dotted : List (String × StaticTcpProxyConfig) :=
  [("web.eu", { localPort := 80, remoteHost := "www", remotePort := 8080 }),
    ("web", { localPort := 81, remoteHost := "bbb", remotePort := 8081 })]

/-- Their properties. -/
def dottedProperties : Properties where
  entries := render dotted
  nodupKeys := by
    rw [List.nodupKeys_iff_pairwise]
    decide

theorem parse_render_dotted :
    ∃ cs, parse asciiDigits ascending dottedProperties = .ok cs ∧
      cs.Perm (dotted.map Prod.snd) :=
  parse_render (by simp [dotted]) (by decide) (by
    intro p hp
    simp only [dotted, List.mem_cons, List.not_mem_nil, or_false] at hp
    rcases hp with rfl | rfl <;> exact ⟨by decide, by decide, rfl⟩) (List.Perm.refl _)

end Render

/-! ### The runner -/

namespace TcpProxyRunner

/-- The loop of lines 57–60: the servers that are started, with the configurations of their
connectors, and the exception that ends it. -/
def startAll (workerCount : ℕ) : List StaticTcpProxyConfig →
    List (Server.TcpServerConfig × StaticTcpProxyConfig) × Option String
  | [] => ([], none)
  | config :: configs =>
    match Server.TcpServerConfig.make config.localPort workerCount with
    | .error e => ([], some e)
    | .ok server =>
      let (started, e) := startAll workerCount configs
      ((server, { config with workerCount }) :: started, e)

/-- `main`, from line 45 on, on a machine with some cores. -/
def run (D : Digits) (it : Iteration) (cores : ℕ) (properties : Properties) :
    List (Server.TcpServerConfig × StaticTcpProxyConfig) × Option String :=
  match parse D it properties with
  | .error e => ([], some e)
  | .ok configs => startAll (max (cores / configs.length) 1) configs

variable {n : ℕ} {configs : List StaticTcpProxyConfig}

/-- The loop ends at the first negative port. -/
theorem startAll_eq (configs : List StaticTcpProxyConfig) (hn : 1 ≤ n) :
    (startAll n configs).1.map Prod.snd =
        (configs.takeWhile fun c => 0 ≤ c.localPort).map ({ · with workerCount := n }) ∧
      (∀ x ∈ (startAll n configs).1, (x.1.port : ℤ) = x.2.localPort ∧ x.1.workerCount = n) ∧
      (startAll n configs).2 =
        if ∀ c ∈ configs, 0 ≤ c.localPort then none else some "Port can't be negative!" := by
  induction configs with
  | nil => simp [startAll]
  | cons c configs ih =>
    obtain ⟨hstarted, hports, hthrown⟩ := ih
    have hworkers : ¬ (n : ℤ) < 1 := by omega
    by_cases hc : 0 ≤ c.localPort
    · have hmake : Server.TcpServerConfig.make c.localPort n =
          .ok ⟨c.localPort.toNat, n, hn⟩ := by
        simp [Server.TcpServerConfig.make, hworkers, hc]
      simp only [startAll, hmake]
      refine ⟨?_, ?_, ?_⟩
      · simp [hc, hstarted]
      · rintro x hx
        rcases List.mem_cons.mp hx with rfl | hx
        · exact ⟨Int.toNat_of_nonneg hc, rfl⟩
        · exact hports x hx
      · simp [hc, hthrown]
    · have hmake : Server.TcpServerConfig.make c.localPort n =
          .error "Port can't be negative!" := by
        simp [Server.TcpServerConfig.make, hworkers, not_le.mp hc]
      simp only [startAll, hmake]
      refine ⟨?_, ?_, ?_⟩
      · simp [hc]
      · simp
      · simp [hc]

/-- **What is started.** When the properties are accepted, the proxies are started in the order in
which they have been read, up to the first negative local port, at which `main` throws: each one
on its port, with the same share of the cores and at least one worker. No more workers are started
than there are cores, or proxies if these are more. -/
theorem run_started {D : Digits} {it : Iteration} {cores : ℕ} {properties : Properties}
    (h : parse D it properties = .ok configs) :
    (run D it cores properties).1.map Prod.snd =
        (configs.takeWhile fun c => 0 ≤ c.localPort).map
          ({ · with workerCount := (max (cores / configs.length) 1 : ℕ) }) ∧
      (∀ x ∈ (run D it cores properties).1, (x.1.port : ℤ) = x.2.localPort ∧
        x.1.workerCount = max (cores / configs.length) 1) ∧
      (run D it cores properties).2 =
        (if ∀ c ∈ configs, 0 ≤ c.localPort then none else some "Port can't be negative!") ∧
      ((run D it cores properties).1.map fun x => x.1.workerCount).sum ≤
        max cores configs.length := by
  have hrun : run D it cores properties = startAll (max (cores / configs.length) 1) configs := by
    rw [run, h]
  obtain ⟨hstarted, hports, hthrown⟩ :=
    startAll_eq configs (Nat.le_max_right (cores / configs.length) 1)
  rw [hrun]
  refine ⟨hstarted, hports, hthrown, ?_⟩
  have hlength : (startAll (max (cores / configs.length) 1) configs).1.length ≤ configs.length := by
    have hmap := congrArg List.length hstarted
    simp only [List.length_map] at hmap
    rw [hmap]
    exact (List.takeWhile_prefix _).length_le
  have hsum : ((startAll (max (cores / configs.length) 1) configs).1.map fun x =>
      x.1.workerCount).sum =
      (startAll (max (cores / configs.length) 1) configs).1.length *
        max (cores / configs.length) 1 := by
    rw [List.map_congr_left fun x hx => (hports x hx).2, List.map_const', List.sum_replicate_nat]
  rw [hsum]
  refine (Nat.mul_le_mul_right _ hlength).trans ?_
  rw [← Nat.mul_max_mul_left]
  refine max_le_max (Nat.mul_div_le _ _) (by simp)

/-- Two proxies; the port of the second one is negative. -/
def negative : List (String × StaticTcpProxyConfig) :=
  [("ssh", { localPort := 22, remoteHost := "shell", remotePort := 2222 }),
    ("web", { localPort := -1, remoteHost := "www", remotePort := 8080 })]

/-- Their properties. -/
def negativeProperties : Properties where
  entries := render negative
  nodupKeys := by
    rw [List.nodupKeys_iff_pairwise]
    decide

/-- The first one is started, with its share of four cores. -/
theorem run_started_negative :
    (run asciiDigits ascending 4 negativeProperties).1.map
        (fun x => ((x.1.port, x.1.workerCount), x.2)) =
      [((22, 2),
        { localPort := 22, remoteHost := "shell", remotePort := 2222, workerCount := 2 })] ∧
      (run asciiDigits ascending 4 negativeProperties).2 = some "Port can't be negative!" := by
  have hparse : parse asciiDigits ascending negativeProperties =
      .ok (negative.map Prod.snd) := by
    refine parse_of_perm (by simp [negative]) (List.Perm.refl _) ?_
    have horder : ascending.order (negative.map Prod.fst).toFinset = negative.map Prod.fst :=
      (List.toFinset_sort (· ≤ ·) (by decide)).mpr (by decide)
    rw [horder, List.forall₂_map_left_iff, List.forall₂_map_right_iff, List.forall₂_same]
    intro p hp
    refine describes_of_perm (List.Perm.refl _) hp ?_
    simp only [negative, List.mem_cons, List.not_mem_nil, or_false] at hp
    rcases hp with rfl | rfl <;> exact ⟨by decide, by decide, rfl⟩
  obtain ⟨hstarted, hports, hthrown, -⟩ :=
    @run_started _ asciiDigits ascending 4 negativeProperties hparse
  refine ⟨?_, by simpa [negative] using hthrown⟩
  -- the loop has come to the second proxy, and to no other
  obtain ⟨x, hx, hcfg⟩ := List.map_eq_singleton_iff.mp (hstarted.trans rfl)
  obtain ⟨hport, hworkers⟩ := hports x (by rw [hx]; exact List.mem_singleton_self x)
  rw [hcfg] at hport
  have hport : x.1.port = 22 := Int.ofNat.inj hport
  rw [hx, List.map_singleton, hport, hworkers, hcfg]
  rfl

end TcpProxyRunner

end Parikshan.NioProxy

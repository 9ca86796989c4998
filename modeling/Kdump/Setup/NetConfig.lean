import Kdump.Kernel.KernelPath
import Kdump.Lib.DefinedFirst
import Kdump.Lib.Fields
import Kdump.Lib.Ranked
import Kdump.Lib.Shell
import Mathlib.Logic.Relation

/-!
# NetConfig — the network interfaces of the initrd

An interface is set up with all that it consists of.  Hardware interfaces get new names; the
parameters for bridges, bonds and VLANs name the interfaces below them.

* `Net` — what the queries say about the interfaces of the running system;
* `kdump_ifname_config` and the functions that it calls;
* `Event`, `Logged` — what has been appended to the shell variables, as a list;
* `configured` — the events of a call.
-/

namespace Kdump
namespace Setup

open Lib
open Lib.Shell (isIfs)

/-! ## The running system -/

/-- The answers about the interfaces of the running system.  The interfaces that one consists of
are on lower levels: the kernel allows no loops. -/
structure Net where
  /-- `kdump_ifkind` -/
  ifkind : Str → Str
  /-- the words of `$curslaves` -/
  curslaves : Str → List Str
  /-- `$opts` in `kdump_bond_config` -/
  opts : Str → Str
  /-- `$vid` and `$if` in `kdump_vlan_config` -/
  vid : Str → Str
  lower : Str → Str
  /-- `kdump_hwaddr` -/
  hwaddr : Str → Str
  /-- the target of the link to the driver -/
  driver : Str → Str
  /-- the target of the link to the module, if it is one -/
  module : Str → Option Str
  level : Str → Nat
  curslaves_below : ∀ x, ifkind x = str "bridge" ∨ ifkind x = str "bond" →
    ∀ y ∈ curslaves x, level y < level x
  lower_below : ∀ x, ifkind x = str "vlan" → level (lower x) < level x

/-- The global variables of the script. -/
structure NetState where
  kdump_iface : Str
  kdump_netif : Str
  kdump_kmods : Str
  kdump_ifmap : Str
  kdump_ifnum : Nat

/-- The variables when the script has been read. -/
def NetState.init : NetState :=
  ⟨[], [], [], [], 0⟩

abbrev comma : UInt8 := 44
abbrev colon : UInt8 := 58

/-! ## The functions -/

section

variable (net : Net)

/-- The name that a hardware interface gets. -/
def kdumpName (kdump_ifnum : Nat) : Str :=
  str "kdump" ++ decimal kdump_ifnum

/-- `*/qeth`. -/
def isQeth (driver : Str) : Bool :=
  Kernel.endsWith driver (str "/qeth")

/-- `${slaves# }`, and then `${slaves// /,}`. -/
def commas (slaves : Str) : Str :=
  (if slaves.head? = some space then slaves.drop 1 else slaves).map
    fun c => if c = space then comma else c

/-- The branch of `kdump_ifname_config` for a hardware interface. -/
def hardware_config (iface : Str) (s : NetState) : NetState :=
  let kdump_iface := kdumpName s.kdump_ifnum
  let hwaddr := net.hwaddr iface
  { kdump_iface := kdump_iface
    kdump_ifnum := s.kdump_ifnum + 1
    kdump_ifmap := s.kdump_ifmap ++ (space :: iface ++ colon :: kdump_iface)
    kdump_netif :=
      if isQeth (net.driver iface) then s.kdump_netif
      else if hwaddr ≠ [] then
        s.kdump_netif ++ (str " ifname=" ++ kdump_iface ++ colon :: hwaddr)
      else s.kdump_netif
    kdump_kmods :=
      match net.module iface with
      | some mod => s.kdump_kmods ++ space :: mod.rtakeWhile (· != slash)
      | none => s.kdump_kmods }

/-- A call of `kdump_ifname_config`: the variables behind it, and whether it succeeds. -/
abbrev Config := Str → NetState → NetState × Bool

/-- The loop over the slaves of a bridge or bond; the last parameter is `$slaves`. -/
def configSlaves (config : Config) : (curslaves : List Str) → NetState → Str → NetState × Str
  | [], s, slaves => (s, slaves)
  | if_ :: curslaves, s, slaves =>
      let r := config if_ s
      -- `|| continue`
      configSlaves config curslaves r.1
        (if r.2 then slaves ++ space :: r.1.kdump_iface else slaves)

/-- `kdump_bridge_config`. -/
def kdump_bridge_config (config : Config) (bridge : Str) (s : NetState) : NetState × Bool :=
  let r := configSlaves config (net.curslaves bridge) s []
  let s := { r.1 with kdump_iface := bridge }
  if r.2 = [] then (s, false)
  else
    ({ s with
        kdump_kmods := s.kdump_kmods ++ str " bridge"
        kdump_netif := s.kdump_netif ++ (str " bridge=" ++ bridge ++ colon :: commas r.2) }, true)

/-- `kdump_bond_config`. -/
def kdump_bond_config (config : Config) (bond : Str) (s : NetState) : NetState × Bool :=
  let opts := net.opts bond
  let r := configSlaves config (net.curslaves bond) s []
  let s := { r.1 with kdump_iface := bond }
  if r.2 = [] then (s, false)
  else
    ({ s with
        kdump_kmods := s.kdump_kmods ++ str " bonding"
        kdump_netif := s.kdump_netif ++ (str " bond=" ++ bond ++ colon :: commas r.2 ++
          colon :: if opts.head? = some comma then opts.drop 1 else opts) }, true)

/-- `kdump_vlan_config`.  The status of the call for the interface below is not looked at. -/
def kdump_vlan_config (config : Config) (vlan : Str) (s : NetState) : NetState × Bool :=
  let if_ := net.lower vlan
  let s := { s with kdump_kmods := s.kdump_kmods ++ str " 8021q" }
  let s := (config if_ s).1
  let kdump_iface := if_ ++ period :: net.vid vlan
  ({ s with
      kdump_iface := kdump_iface
      kdump_netif := s.kdump_netif ++ (str " vlan=" ++ kdump_iface ++ colon :: if_) }, true)

/-- The body of `kdump_ifname_config`. -/
def configBody (config : Config) (iface : Str) (s : NetState) : NetState × Bool :=
  let ifkind := net.ifkind iface
  if ifkind = [] then (hardware_config net iface s, true)
  else if ifkind = str "bridge" then kdump_bridge_config net config iface s
  else if ifkind = str "bond" then kdump_bond_config net config iface s
  else if ifkind = str "vlan" then kdump_vlan_config net config iface s
  else (s, false)

/-- `kdump_ifname_config`. -/
def kdump_ifname_config : Config :=
  rankedFix net.level (configBody net) fun _ s => (s, false)

/-- `${_spec%:*}` and `${_spec##*:}`. -/
def splitSpec (spec : Str) : Str × Str :=
  (if colon ∈ spec then (spec.rdropWhile (· != colon)).dropLast else spec,
    spec.rtakeWhile (· != colon))

/-- `kdump_setup_hwif`: the interfaces that `kdump_setup_qeth` is called for, and their names in
the initrd. -/
def kdump_setup_hwif (kdump_ifmap : Str) : List (Str × Str) :=
  ((fields isIfs kdump_ifmap).map splitSpec).filter fun entry => isQeth (net.driver entry.1)

end

/-! ## The recursion -/

section

variable {net : Net}

theorem configSlaves_congr {f g : Config} {curslaves : List Str}
    (h : ∀ y ∈ curslaves, f y = g y) (s : NetState) (slaves : Str) :
    configSlaves f curslaves s slaves = configSlaves g curslaves s slaves := by
  induction curslaves generalizing s slaves with
  | nil => rfl
  | cons y ys ih =>
      rw [configSlaves, configSlaves, h y List.mem_cons_self]
      exact ih (fun z hz => h z (List.mem_cons_of_mem _ hz)) _ _

/-- The calls are for interfaces on lower levels. -/
theorem descends : Descends net.level (configBody net) := by
  intro x f g h
  funext s
  unfold configBody
  dsimp only
  split_ifs with hhardware hbridge hbond hvlan
  · rfl
  · have hslaves := configSlaves_congr
      (fun y hy => h y (net.curslaves_below x (.inl hbridge) y hy)) s []
    unfold kdump_bridge_config
    rw [hslaves]
  · have hslaves := configSlaves_congr
      (fun y hy => h y (net.curslaves_below x (.inr hbond) y hy)) s []
    unfold kdump_bond_config
    rw [hslaves]
  · unfold kdump_vlan_config
    dsimp only
    rw [h _ (net.lower_below x hvlan)]
  · rfl

theorem kdump_ifname_config_eq (iface : Str) :
    kdump_ifname_config net iface = configBody net (kdump_ifname_config net) iface :=
  rankedFix_eq descends iface

end

/-! ## Events -/

/-- An interface of the running system that has been set up. -/
inductive Event where
  | hardware (host : Str) (number : Nat)
  | bridge (host : Str) (members : List Str)
  | bond (host : Str) (members : List Str)
  | vlan (host : Str)
  deriving DecidableEq, Repr

namespace Event

def host : Event → Str
  | hardware host _ => host
  | bridge host _ => host
  | bond host _ => host
  | vlan host => host

def number : Event → Option Nat
  | hardware _ number => some number
  | _ => none

variable (net : Net)

/-- Its name in the initrd. -/
def name : Event → Str
  | hardware _ number => kdumpName number
  | bridge host _ => host
  | bond host _ => host
  | vlan host => net.lower host ++ period :: net.vid host

/-- The interfaces that the parameter for a bridge or bond names. -/
def members : Event → List Str
  | hardware _ _ => []
  | bridge _ members => members
  | bond _ members => members
  | vlan _ => []

/-- The interface that the parameter for a VLAN names. -/
def lowers : Event → List Str
  | vlan host => [net.lower host]
  | _ => []

/-- All of them. -/
def uses (e : Event) : List Str :=
  e.members ++ e.lowers net

/-- `$slaves`, for the names that it consists of. -/
def slavesText (names : List Str) : Str :=
  names.flatMap (space :: ·)

/-- The parameter for the command line, if there is one. -/
def param : Event → Str
  | hardware host number =>
      if isQeth (net.driver host) then []
      else if net.hwaddr host ≠ [] then
        str " ifname=" ++ kdumpName number ++ colon :: net.hwaddr host
      else []
  | bridge host members => str " bridge=" ++ host ++ colon :: commas (slavesText members)
  | bond host members =>
      let opts := net.opts host
      str " bond=" ++ host ++ colon :: commas (slavesText members) ++
        colon :: if opts.head? = some comma then opts.drop 1 else opts
  | vlan host =>
      str " vlan=" ++ (net.lower host ++ period :: net.vid host) ++ colon :: net.lower host

/-- The entry of the map. -/
def entry : Event → Str
  | hardware host number => space :: host ++ colon :: kdumpName number
  | _ => []

/-- The event is one that the function makes for such an interface. -/
def Kind : Event → Prop
  | hardware host _ => net.ifkind host = []
  | bridge host members => net.ifkind host = str "bridge" ∧ members ≠ []
  | bond host members => net.ifkind host = str "bond" ∧ members ≠ []
  | vlan host => net.ifkind host = str "vlan"

end Event

/-- What has been appended to the variables. -/
structure Logged (net : Net) (s s' : NetState) (events : List Event) : Prop where
  netif : s'.kdump_netif = s.kdump_netif ++ events.flatMap (Event.param net)
  ifmap : s'.kdump_ifmap = s.kdump_ifmap ++ events.flatMap Event.entry
  numbers : events.filterMap Event.number =
    List.range' s.kdump_ifnum (events.filterMap Event.number).length
  ifnum : s'.kdump_ifnum = s.kdump_ifnum + (events.filterMap Event.number).length

namespace Logged

variable {net : Net} {s s' s'' : NetState} {es fs : List Event}

theorem refl (hnetif : s'.kdump_netif = s.kdump_netif) (hifmap : s'.kdump_ifmap = s.kdump_ifmap)
    (hifnum : s'.kdump_ifnum = s.kdump_ifnum) : Logged net s s' [] where
  netif := hnetif.trans (List.append_nil _).symm
  ifmap := hifmap.trans (List.append_nil _).symm
  numbers := rfl
  ifnum := hifnum

theorem trans (h : Logged net s s' es) (h' : Logged net s' s'' fs) :
    Logged net s s'' (es ++ fs) where
  netif := by rw [h'.netif, h.netif, List.flatMap_append, List.append_assoc]
  ifmap := by rw [h'.ifmap, h.ifmap, List.flatMap_append, List.append_assoc]
  numbers := by
    have hnumbers := h'.numbers
    rw [h.ifnum] at hnumbers
    rw [List.filterMap_append, List.length_append, ← List.range'_append_1, ← h.numbers,
      ← hnumbers]
  ifnum := by
    rw [h'.ifnum, h.ifnum, List.filterMap_append, List.length_append, Nat.add_assoc]

/-- One more event that is not about hardware. -/
theorem concat {e : Event} (h : Logged net s s' es) (hnumber : e.number = none)
    (hentry : e.entry = []) (hnetif : s''.kdump_netif = s'.kdump_netif ++ e.param net)
    (hifmap : s''.kdump_ifmap = s'.kdump_ifmap) (hifnum : s''.kdump_ifnum = s'.kdump_ifnum) :
    Logged net s s'' (es ++ [e]) := by
  have hcount : [e].filterMap Event.number = [] := by
    rw [List.filterMap_cons_none hnumber, List.filterMap_nil]
  refine h.trans ⟨?_, ?_, ?_, ?_⟩
  · rw [List.flatMap_singleton, hnetif]
  · rw [List.flatMap_singleton, hentry, hifmap, List.append_nil]
  · rw [hcount]
    rfl
  · rw [hcount]
    exact hifnum

end Logged

theorem logged_hardware (net : Net) (iface : Str) (s : NetState) :
    Logged net s (hardware_config net iface s) [.hardware iface s.kdump_ifnum] where
  netif := by
    rw [List.flatMap_singleton]
    unfold hardware_config Event.param
    dsimp only
    split_ifs <;> simp
  ifmap := by
    rw [List.flatMap_singleton]
    rfl
  numbers := rfl
  ifnum := rfl

/-! ## Interfaces that can be set up -/

section

variable (net : Net)

def worksBody (works : Str → Bool) (iface : Str) : Bool :=
  let ifkind := net.ifkind iface
  if ifkind = [] then true
  else if ifkind = str "bridge" ∨ ifkind = str "bond" then (net.curslaves iface).any works
  else ifkind = str "vlan"

/-- A bridge or bond needs a slave that can be set up.  A VLAN does not. -/
def works : Str → Bool :=
  rankedFix net.level (worksBody net) fun _ => false

end

theorem any_congr {α : Type*} {p q : α → Bool} {l : List α} (h : ∀ a ∈ l, p a = q a) :
    l.any p = l.any q := by
  rw [Bool.eq_iff_iff, List.any_eq_true, List.any_eq_true]
  exact exists_congr fun a => and_congr_right fun ha => by rw [h a ha]

theorem works_eq (net : Net) (iface : Str) : works net iface = worksBody net (works net) iface := by
  refine rankedFix_eq (fun x f g h => ?_) iface
  unfold worksBody
  dsimp only
  split_ifs with hhardware hslaves
  · rfl
  · exact any_congr fun y hy => h y (net.curslaves_below x hslaves y hy)
  · rfl

/-! ## The events of a call -/

variable {net : Net}

/-- Where the interface below a VLAN can be set up, this has been done just before. -/
def Preceded (net : Net) (events : List Event) : Prop :=
  ∀ before x after, events = before ++ .vlan x :: after → works net (net.lower x) = true →
    ∃ front e, before = front ++ [e] ∧ e.host = net.lower x

theorem Preceded.append {es fs : List Event} (hes : Preceded net es) (hfs : Preceded net fs) :
    Preceded net (es ++ fs) := by
  intro before x after h hworks
  rcases List.append_eq_append_iff.1 h with ⟨front, rfl, hfs'⟩ | ⟨back, hes', hback⟩
  · obtain ⟨front', e, rfl, he⟩ := hfs front x after hfs' hworks
    exact ⟨es ++ front', e, (List.append_assoc _ _ _).symm, he⟩
  · cases back with
    | nil =>
        rw [List.append_nil] at hes'
        obtain ⟨front', e, hfront, he⟩ := hfs [] x after hback.symm hworks
        exact absurd hfront.symm (List.append_ne_nil_of_right_ne_nil _ (List.cons_ne_nil _ _))
    | cons y back =>
        cases hback
        exact hes before x back hes' hworks

theorem Preceded.concat {es : List Event} {e : Event} (hes : Preceded net es)
    (he : ∀ x, e = .vlan x → works net (net.lower x) = true →
      ∃ front e, es = front ++ [e] ∧ e.host = net.lower x) : Preceded net (es ++ [e]) := by
  intro before x after h hworks
  cases hafter : after using List.reverseRecOn with
  | nil =>
      subst hafter
      obtain ⟨rfl, hx⟩ := List.append_inj' h rfl
      exact he x (List.singleton_injective hx) hworks
  | append_singleton after' y _ =>
      subst hafter
      rw [← List.cons_append, ← List.append_assoc] at h
      obtain ⟨rfl, -⟩ := List.append_inj' h rfl
      exact hes before x after' rfl hworks

/-- What holds of the events of every call. -/
structure Sound (net : Net) (events : List Event) : Prop where
  kinds : ∀ e ∈ events, e.Kind net
  works : ∀ e ∈ events, works net e.host = true
  members : DefinedFirst (Event.name net) Event.members ∅ events
  preceded : Preceded net events

namespace Sound

variable {es fs : List Event} {e : Event}

theorem nil : Sound net [] where
  kinds := List.forall_mem_nil _
  works := List.forall_mem_nil _
  members := trivial
  preceded _ _ _ h :=
    absurd h.symm (List.append_ne_nil_of_right_ne_nil _ (List.cons_ne_nil _ _))

theorem append (hes : Sound net es) (hfs : Sound net fs) : Sound net (es ++ fs) where
  kinds e he := (List.mem_append.1 he).elim (hes.kinds e) (hfs.kinds e)
  works e he := (List.mem_append.1 he).elim (hes.works e) (hfs.works e)
  members := definedFirst_append.2 ⟨hes.members, hfs.members.mono (Set.empty_subset _)⟩
  preceded := hes.preceded.append hfs.preceded

theorem concat (hes : Sound net es) (hkind : e.Kind net)
    (hworks : Setup.works net e.host = true)
    (hmembers : ∀ a ∈ e.members, a ∈ es.map (Event.name net))
    (hlower : ∀ x, e = .vlan x → Setup.works net (net.lower x) = true →
      ∃ front e, es = front ++ [e] ∧ e.host = net.lower x) : Sound net (es ++ [e]) where
  kinds := List.forall_mem_append.2 ⟨hes.kinds, List.forall_mem_singleton.2 hkind⟩
  works := List.forall_mem_append.2 ⟨hes.works, List.forall_mem_singleton.2 hworks⟩
  members := hes.members.concat fun a ha => .inr (hmembers a ha)
  preceded := hes.preceded.concat hlower

end Sound

/-- The second interface is one that the first one consists of. -/
def Under (net : Net) (x y : Str) : Prop :=
  ((net.ifkind x = str "bridge" ∨ net.ifkind x = str "bond") ∧ y ∈ net.curslaves x) ∨
    (net.ifkind x = str "vlan" ∧ y = net.lower x)

/-- The events of a call for the interface `x`.  The last one is for the interface itself, and its
name is left in `kdump_iface`.  A call that fails has done nothing. -/
structure Configured (net : Net) (x : Str) (s : NetState) (r : NetState × Bool)
    (events : List Event) : Prop where
  logged : Logged net s r.1 events
  sound : Sound net events
  below : ∀ e ∈ events, Relation.ReflTransGen (Under net) x e.host
  status : r.2 = works net x
  last : r.2 = true → ∃ front e, events = front ++ [e] ∧ e.host = x ∧ r.1.kdump_iface = e.name net
  failed : r.2 = false → events = []

/-- The events of the loop over the slaves, and the names that are added to `$slaves`. -/
structure ConfiguredSlaves (net : Net) (curslaves : List Str) (s : NetState) (slaves : Str)
    (r : NetState × Str) (events : List Event) (names : List Str) : Prop where
  logged : Logged net s r.1 events
  sound : Sound net events
  below : ∀ e ∈ events, ∃ y ∈ curslaves, Relation.ReflTransGen (Under net) y e.host
  slaves : r.2 = slaves ++ Event.slavesText names
  defined : ∀ a ∈ names, a ∈ events.map (Event.name net)
  failed : names = [] → events = []
  works : names = [] ↔ ∀ y ∈ curslaves, Setup.works net y = false

theorem configuredSlaves {config : Config} {curslaves : List Str}
    (h : ∀ y ∈ curslaves, ∀ s, ∃ events, Configured net y s (config y s) events) (s : NetState)
    (slaves : Str) : ∃ events names, ConfiguredSlaves net curslaves s slaves
      (configSlaves config curslaves s slaves) events names := by
  induction curslaves generalizing s slaves with
  | nil =>
      refine ⟨[], [], .refl rfl rfl rfl, .nil, List.forall_mem_nil _,
        (List.append_nil _).symm, List.forall_mem_nil _, fun _ => rfl,
        fun _ => List.forall_mem_nil _, fun _ => rfl⟩
  | cons y ys ih =>
      obtain ⟨first, hfirst⟩ := h y List.mem_cons_self s
      have hlater : ∀ {e : Event}, (∃ z ∈ ys, Relation.ReflTransGen (Under net) z e.host) →
          ∃ z ∈ y :: ys, Relation.ReflTransGen (Under net) z e.host :=
        fun ⟨z, hz, hunder⟩ => ⟨z, List.mem_cons_of_mem _ hz, hunder⟩
      have hrest := ih fun z hz => h z (List.mem_cons_of_mem _ hz)
      rw [configSlaves]
      cases hok : (config y s).2 with
      | false =>
          obtain ⟨events, names, hc⟩ := hrest (config y s).1 slaves
          have hnone := hfirst.failed hok
          subst hnone
          refine ⟨events, names, hfirst.logged.trans hc.logged, hc.sound,
            fun e he => hlater (hc.below e he), hc.slaves, hc.defined, hc.failed, ?_⟩
          rw [List.forall_mem_cons, hc.works]
          exact ⟨fun hall => ⟨hfirst.status.symm.trans hok, hall⟩, fun hall => hall.2⟩
      | true =>
          obtain ⟨events, names, hc⟩ :=
            hrest (config y s).1 (slaves ++ space :: (config y s).1.kdump_iface)
          obtain ⟨front, e, rfl, -, hname⟩ := hfirst.last hok
          refine ⟨front ++ [e] ++ events, (config y s).1.kdump_iface :: names,
            hfirst.logged.trans hc.logged, hfirst.sound.append hc.sound, ?_, ?_, ?_, ?_, ?_⟩
          · intro e' he'
            rcases List.mem_append.1 he' with he' | he'
            · exact ⟨y, List.mem_cons_self, hfirst.below e' he'⟩
            · exact hlater (hc.below e' he')
          · have htext := hc.slaves
            rw [List.append_assoc] at htext
            exact htext
          · intro a ha
            rw [List.map_append, List.mem_append]
            rcases List.mem_cons.1 ha with rfl | ha
            · left
              rw [hname]
              exact List.mem_map_of_mem (List.mem_append_right _ (List.mem_singleton_self _))
            · exact .inr (hc.defined a ha)
          · intro hnil
            exact absurd hnil (List.cons_ne_nil _ _)
          · refine ⟨fun hnil => absurd hnil (List.cons_ne_nil _ _), fun hall => ?_⟩
            have hy := hall y List.mem_cons_self
            rw [← hfirst.status, hok] at hy
            cases hy

theorem slavesText_eq_nil {names : List Str} : Event.slavesText names = [] ↔ names = [] := by
  cases names with
  | nil => exact ⟨fun _ => rfl, fun _ => rfl⟩
  | cons name names =>
      rw [Event.slavesText, List.flatMap_cons]
      exact ⟨fun h => absurd h (List.cons_ne_nil _ _), fun h => absurd h (List.cons_ne_nil _ _)⟩

/-- The functions for bridges and for bonds do the same with the loop. -/
theorem configured_slaves_of {x : Str} {s : NetState} {loop : NetState × Str}
    {events : List Event} {names : List Str} {after : NetState} {e : Event}
    (hc : ConfiguredSlaves net (net.curslaves x) s [] loop events names)
    (hslaves : net.ifkind x = str "bridge" ∨ net.ifkind x = str "bond")
    (hhost : e.host = x) (hname : e.name net = x) (hmembers : e.members = names)
    (hnumber : e.number = none) (hentry : e.entry = []) (hkind : names ≠ [] → e.Kind net)
    (hvlan : ∀ y, e ≠ .vlan y)
    (hnetif : after.kdump_netif = loop.1.kdump_netif ++ e.param net)
    (hifmap : after.kdump_ifmap = loop.1.kdump_ifmap)
    (hifnum : after.kdump_ifnum = loop.1.kdump_ifnum) (hiface : after.kdump_iface = x) :
    ∃ events', Configured net x s
      (if loop.2 = [] then ({ loop.1 with kdump_iface := x }, false) else (after, true))
      events' := by
  have hworks : Setup.works net x = (net.curslaves x).any (Setup.works net) := by
    have hne : net.ifkind x ≠ [] := by
      rcases hslaves with h | h <;> rw [h] <;> decide
    rw [works_eq, worksBody, if_neg hne, if_pos hslaves]
  have hbelow : ∀ e ∈ events, Relation.ReflTransGen (Under net) x e.host := by
    intro e he
    obtain ⟨y, hy, hunder⟩ := hc.below e he
    exact hunder.head (.inl ⟨hslaves, hy⟩)
  have hempty : loop.2 = [] ↔ names = [] := by
    rw [hc.slaves, List.nil_append, slavesText_eq_nil]
  split_ifs with hnil
  · have hnames := hempty.1 hnil
    have hlogged : Logged net s { loop.1 with kdump_iface := x } (events ++ []) :=
      hc.logged.trans (.refl rfl rfl rfl)
    rw [List.append_nil] at hlogged
    refine ⟨events, hlogged, hc.sound, hbelow, ?_,
      fun h => absurd h Bool.false_ne_true, fun _ => hc.failed hnames⟩
    rw [hworks, eq_comm, List.any_eq_false]
    exact fun y hy => by rw [hc.works.1 hnames y hy]; exact Bool.false_ne_true
  · have hnames : names ≠ [] := fun h => hnil (hempty.2 h)
    have hx : Setup.works net x = true := by
      rw [hworks, List.any_eq_true]
      by_contra hnone
      refine hnames (hc.works.2 fun y hy => ?_)
      by_contra hy'
      exact hnone ⟨y, hy, Bool.eq_true_of_not_eq_false hy'⟩
    refine ⟨events ++ [e], hc.logged.concat hnumber hentry hnetif hifmap hifnum,
      hc.sound.concat (hkind hnames) (hhost ▸ hx) ?_ fun y hy => absurd hy (hvlan y),
      List.forall_mem_append.2 ⟨hbelow, List.forall_mem_singleton.2 (hhost ▸ .refl)⟩, hx.symm,
      fun _ => ⟨events, e, rfl, hhost, ?_⟩, fun h => absurd h.symm Bool.false_ne_true⟩
    · rw [hmembers]
      exact hc.defined
    · rw [hiface, hname]

/-- What a call does, for every interface and every state of the variables. -/
theorem configured (net : Net) (x : Str) (s : NetState) :
    ∃ events, Configured net x s (kdump_ifname_config net x s) events := by
  induction hlevel : net.level x using Nat.strong_induction_on generalizing x s with
  | _ level ih =>
      have ihbelow : ∀ y, net.level y < net.level x → ∀ s, ∃ events,
          Configured net y s (kdump_ifname_config net y s) events :=
        fun y hy s => ih _ (hlevel ▸ hy) y s rfl
      have hworks := works_eq net x
      rw [kdump_ifname_config_eq]
      unfold configBody
      unfold worksBody at hworks
      dsimp only at hworks ⊢
      split_ifs with hhardware hbridge hbond hvlan
      · rw [if_pos hhardware] at hworks
        have hsound : Sound net ([] ++ [.hardware x s.kdump_ifnum]) :=
          Sound.nil.concat hhardware hworks (List.forall_mem_nil _) fun y hy => nomatch hy
        exact ⟨_, logged_hardware net x s, hsound, List.forall_mem_singleton.2 .refl, hworks.symm,
          fun _ => ⟨[], _, rfl, rfl, rfl⟩, fun h => absurd h.symm Bool.false_ne_true⟩
      · obtain ⟨events, names, hc⟩ := configuredSlaves
          (fun y hy => ihbelow y (net.curslaves_below x (.inl hbridge) y hy)) s []
        refine configured_slaves_of (e := .bridge x names) hc (.inl hbridge) rfl rfl rfl rfl rfl
          (fun hne => ⟨hbridge, hne⟩) (fun y hy => nomatch hy) ?_ rfl rfl rfl
        rw [hc.slaves]
        rfl
      · obtain ⟨events, names, hc⟩ := configuredSlaves
          (fun y hy => ihbelow y (net.curslaves_below x (.inr hbond) y hy)) s []
        refine configured_slaves_of (e := .bond x names) hc (.inr hbond) rfl rfl rfl rfl rfl
          (fun hne => ⟨hbond, hne⟩) (fun y hy => nomatch hy) ?_ rfl rfl rfl
        rw [hc.slaves]
        rfl
      · rw [if_neg hhardware, if_neg (not_or.2 ⟨hbridge, hbond⟩), decide_eq_true hvlan] at hworks
        obtain ⟨events, hc⟩ := ihbelow _ (net.lower_below x hvlan)
          { s with kdump_kmods := s.kdump_kmods ++ str " 8021q" }
        have hbelow : ∀ e ∈ events, Relation.ReflTransGen (Under net) x e.host :=
          fun e he => (hc.below e he).head (.inr ⟨hvlan, rfl⟩)
        refine ⟨events ++ [.vlan x], ?_, ?_,
          List.forall_mem_append.2 ⟨hbelow, List.forall_mem_singleton.2 .refl⟩, hworks.symm,
          fun _ => ⟨events, _, rfl, rfl, rfl⟩, fun h => absurd h.symm Bool.false_ne_true⟩
        · have hmodule : Logged net s { s with kdump_kmods := s.kdump_kmods ++ str " 8021q" } [] :=
            .refl rfl rfl rfl
          exact (hmodule.trans hc.logged).concat rfl rfl rfl rfl rfl
        · refine hc.sound.concat hvlan hworks (List.forall_mem_nil _) ?_
          rintro y ⟨rfl⟩ hlower
          obtain ⟨front, e, hevents, hhost, -⟩ := hc.last (hc.status.trans hlower)
          exact ⟨front, e, hevents, hhost⟩
      · rw [if_neg hhardware, if_neg (not_or.2 ⟨hbridge, hbond⟩), decide_eq_false hvlan] at hworks
        exact ⟨[], .refl rfl rfl rfl, .nil, List.forall_mem_nil _, hworks.symm,
          fun h => absurd h Bool.false_ne_true, fun _ => rfl⟩

end Setup
end Kdump

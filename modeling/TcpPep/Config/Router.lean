import TcpPep.Lib.Machine
import TcpPep.Lib.Table
import TcpPep.Protocol.Header

/-!
The routing table of the client and its reload.

`LoadConfig` turns the routes of a file into two tables, and `Lookup` searches them in three rounds.
On SIGHUP the file is loaded again while connections are being routed: each `handleTCPConn` reads
the pointer to the table once and looks its destination up in what it has read.

* `NetPkg`: what the code takes from package `net`;
* `Router`, `loadConfig`, `lookup`: package `config`;
* `serverFor`: what a list of routes says about a destination, with no tables;
* `Router.Holds`, `Router.Holds.lookup`: a table that was loaded says the same;
* `addRoutes_cases`: when a list of routes loads, and how it fails;
* `Dispatcher`, `routing`: the table in use, its reloads and the connections that are being routed;
* `routing_agrees`: in every run, every connection goes where the routes that were in use when it
  read them say.
-/

namespace TcpPep.Routing

open Protocol Events FiniteMap

/-- The functions of package `net` behind the routing, with the texts of their errors. -/
structure NetPkg (IP IPNet UDPAddr : Type) where
  parseCIDR : Bytes → Except Bytes IPNet
  contains : IPNet → IP → Bool
  parseIP : Bytes → Option IP
  /-- `SplitHostPort`, of which only the host is used -/
  splitHostPort : Bytes → Option Bytes
  resolveUDPAddr : Bytes → Except Bytes UDPAddr

structure RouteConfig where
  originalDst : Bytes
  serverPEP : Bytes
  deriving DecidableEq

structure SubnetRoute (IPNet : Type) where
  ipNet : IPNet
  serverPEP : Bytes

structure Router (IPNet : Type) where
  exactMatches : Table Bytes Bytes := ∅
  subnets : List (SubnetRoute IPNet) := []

def slash : UInt8 := 0x2F

def text (s : String) : Bytes := s.toUTF8.toList

def invalidCIDR (originalDst err : Bytes) : Bytes :=
  text "invalid CIDR route " ++ originalDst ++ text ": " ++ err

def noRoute (destAddr : Bytes) : Bytes := text "no route found for destination " ++ destAddr

variable {IP IPNet UDPAddr : Type} (net : NetPkg IP IPNet UDPAddr)

/-! ## Package `config` -/

/-- One round of the loop of `LoadConfig`. -/
def Router.addRoute (router : Router IPNet) (r : RouteConfig) : Except Bytes (Router IPNet) :=
  if slash ∈ r.originalDst then
    match net.parseCIDR r.originalDst with
    | .error err => .error (invalidCIDR r.originalDst err)
    | .ok ipNet => .ok { router with subnets := router.subnets ++ [⟨ipNet, r.serverPEP⟩] }
  else .ok { router with exactMatches := router.exactMatches.insert r.originalDst r.serverPEP }

def Router.addRoutes (router : Router IPNet) : List RouteConfig → Except Bytes (Router IPNet)
  | [] => .ok router
  | r :: routes =>
    match router.addRoute net r with
    | .error err => .error err
    | .ok router => router.addRoutes routes

/-- `LoadConfig`; `file` is what `ReadFile` and `yaml.Unmarshal` make of the path. -/
def loadConfig (file : Except Bytes (List RouteConfig)) : Except Bytes (Router IPNet) :=
  match file with
  | .error err => .error err
  | .ok routes => Router.addRoutes net {} routes

/-- The second part of `Lookup`. -/
def Router.subnetMatch (router : Router IPNet) (host : Bytes) : Option Bytes :=
  match net.parseIP host with
  | some ip =>
    (router.subnets.find? fun subnet => net.contains subnet.ipNet ip).map SubnetRoute.serverPEP
  | none => none

def Router.lookup (router : Router IPNet) (destAddr : Bytes) : Except Bytes Bytes :=
  match router.exactMatches.lookup destAddr with
  | some pep => .ok pep
  | none =>
    let found :=
      match net.splitHostPort destAddr with
      | some host =>
        match router.exactMatches.lookup host with
        | some pep => some pep
        | none => router.subnetMatch net host
      | none => router.subnetMatch net destAddr
    match found with
    | some pep => .ok pep
    | none => .error (noRoute destAddr)

/-- Step 2 of `handleTCPConn`. -/
def Router.resolve (router : Router IPNet) (origDst : Bytes) : Except Bytes UDPAddr :=
  match router.lookup net origDst with
  | .error err => .error err
  | .ok serverPEPStr => net.resolveUDPAddr serverPEPStr

/-! ## What a list of routes says -/

/-- The route is for the address itself. -/
def RouteConfig.names (a : Bytes) (r : RouteConfig) : Bool :=
  slash ∉ r.originalDst && r.originalDst = a

/-- The route is for a subnet, and `ip` is in it. -/
def RouteConfig.covers (ip : IP) (r : RouteConfig) : Bool :=
  slash ∈ r.originalDst && match net.parseCIDR r.originalDst with
    | .ok ipNet => net.contains ipNet ip
    | .error _ => false

/-- Of two routes for one address the later one counts. -/
def exactRoute (routes : List RouteConfig) (a : Bytes) : Option Bytes :=
  (routes.reverse.find? (RouteConfig.names a)).map RouteConfig.serverPEP

/-- Of two subnets the earlier one counts, however large they are. -/
def subnetRoute (routes : List RouteConfig) (ip : IP) : Option Bytes :=
  (routes.find? (RouteConfig.covers net ip)).map RouteConfig.serverPEP

/-- A route for the address comes before one for its host, and both before a subnet. -/
def serverFor (routes : List RouteConfig) (destAddr : Bytes) : Option Bytes :=
  (exactRoute routes destAddr).or <|
    ((net.splitHostPort destAddr).bind (exactRoute routes)).or <|
      (net.parseIP ((net.splitHostPort destAddr).getD destAddr)).bind (subnetRoute net routes)

/-- Step 2 of `handleTCPConn` by the routes. -/
def target (routes : List RouteConfig) (origDst : Bytes) : Except Bytes UDPAddr :=
  match serverFor net routes origDst with
  | some serverPEPStr => net.resolveUDPAddr serverPEPStr
  | none => .error (noRoute origDst)

/-! ## The tables hold the routes -/

/-- The entry of a route in `subnets`. -/
def RouteConfig.subnet (r : RouteConfig) : Option (SubnetRoute IPNet) :=
  if slash ∈ r.originalDst then
    match net.parseCIDR r.originalDst with
    | .ok ipNet => some ⟨ipNet, r.serverPEP⟩
    | .error _ => none
  else none

/-- The two tables are those of the routes. -/
structure Router.Holds (routes : List RouteConfig) (router : Router IPNet) : Prop where
  exact : ∀ a, router.exactMatches.lookup a = exactRoute routes a
  subnets : router.subnets = routes.filterMap (RouteConfig.subnet net)

/-- `LoadConfig` can use the route. -/
def RouteConfig.Loads (r : RouteConfig) : Prop :=
  slash ∈ r.originalDst → ∃ ipNet, net.parseCIDR r.originalDst = .ok ipNet

variable {net} {routes rest : List RouteConfig} {r : RouteConfig} {router router' : Router IPNet}

theorem exactRoute_append (a : Bytes) :
    exactRoute (routes ++ [r]) a = if r.names a then some r.serverPEP else exactRoute routes a := by
  rw [exactRoute, List.reverse_append, List.reverse_singleton, List.singleton_append,
    List.find?_cons]
  cases h : r.names a with
  | true => rfl
  | false => rfl

/-- **Step lemma.** One round puts one more route into the tables. -/
theorem Router.Holds.addRoute (h : router.Holds net routes)
    (hadd : router.addRoute net r = .ok router') :
    router'.Holds net (routes ++ [r]) := by
  unfold Router.addRoute at hadd
  split at hadd
  · rename_i hslash
    cases hparse : net.parseCIDR r.originalDst with
    | error err => simp [hparse] at hadd
    | ok ipNet =>
      simp only [hparse, Except.ok.injEq] at hadd
      subst hadd
      constructor
      · intro a
        rw [exactRoute_append, h.exact]
        simp [RouteConfig.names, hslash]
      · simp [h.subnets, List.filterMap_append, RouteConfig.subnet, hslash, hparse]
  · rename_i hslash
    simp only [Except.ok.injEq] at hadd
    subst hadd
    constructor
    · intro a
      rw [exactRoute_append, lookup_insert_eq, h.exact]
      simp [RouteConfig.names, hslash, eq_comm]
    · simp [h.subnets, List.filterMap_append, RouteConfig.subnet, hslash]

/-- Adding a list of routes adds them behind those the tables hold. -/
theorem Router.Holds.addRoutes (h : router.Holds net routes)
    (hadd : router.addRoutes net rest = .ok router') :
    router'.Holds net (routes ++ rest) := by
  induction rest generalizing router routes with
  | nil =>
    simp only [Router.addRoutes, Except.ok.injEq] at hadd
    subst hadd
    simpa using h
  | cons r rest ih =>
    rw [Router.addRoutes] at hadd
    cases hr : router.addRoute net r with
    | error err => simp [hr] at hadd
    | ok router₁ =>
      simp only [hr] at hadd
      have hrest := ih (h.addRoute hr) hadd
      rwa [List.append_assoc, List.singleton_append] at hrest

theorem holds_of_loadConfig (h : loadConfig net (.ok routes) = .ok router) :
    router.Holds net routes := by
  have hempty : Router.Holds net [] ({} : Router IPNet) := ⟨fun a => rfl, rfl⟩
  have hloaded := hempty.addRoutes h
  rwa [List.nil_append] at hloaded

/-- What a round needs, and how it fails without it. -/
theorem addRoute_cases (net : NetPkg IP IPNet UDPAddr) (router : Router IPNet) (r : RouteConfig) :
    (∃ router', router.addRoute net r = .ok router' ∧ r.Loads net) ∨
      ∃ err, slash ∈ r.originalDst ∧ net.parseCIDR r.originalDst = .error err ∧
        router.addRoute net r = .error (invalidCIDR r.originalDst err) := by
  unfold Router.addRoute RouteConfig.Loads
  by_cases hslash : slash ∈ r.originalDst
  · cases hparse : net.parseCIDR r.originalDst with
    | error err =>
      right
      exact ⟨err, hslash, rfl, by simp [hslash]⟩
    | ok ipNet =>
      left
      simp [hslash]
  · left
    simp [hslash]

/-- `LoadConfig` fails at the first route that cannot be used, and its error names this route. -/
structure Fails (net : NetPkg IP IPNet UDPAddr) (routes : List RouteConfig) (msg : Bytes)
    (r : RouteConfig) : Prop where
  first : ∃ before after, routes = before ++ r :: after ∧ ∀ r' ∈ before, r'.Loads net
  cidr : slash ∈ r.originalDst
  error : ∃ err, net.parseCIDR r.originalDst = .error err ∧ msg = invalidCIDR r.originalDst err

theorem addRoutes_cases (net : NetPkg IP IPNet UDPAddr) (router : Router IPNet)
    (routes : List RouteConfig) :
    (∃ router', router.addRoutes net routes = .ok router' ∧ ∀ r ∈ routes, r.Loads net) ∨
      ∃ msg r, router.addRoutes net routes = .error msg ∧ Fails net routes msg r := by
  induction routes generalizing router with
  | nil => exact Or.inl ⟨router, rfl, by simp⟩
  | cons r routes ih =>
    rcases addRoute_cases net router r with ⟨router₁, hr, hloads⟩ | ⟨err, hslash, hparse, hr⟩
    · simp only [Router.addRoutes, hr]
      rcases ih router₁ with ⟨router', hok, hall⟩ | ⟨msg, r', herr, hfails⟩
      · exact Or.inl ⟨router', hok, List.forall_mem_cons.mpr ⟨hloads, hall⟩⟩
      · obtain ⟨before, after, heq, hbefore⟩ := hfails.first
        refine Or.inr ⟨msg, r', herr,
          ⟨r :: before, after, ?_, List.forall_mem_cons.mpr ⟨hloads, hbefore⟩⟩, hfails.cidr,
          hfails.error⟩
        rw [heq, List.cons_append]
    · simp only [Router.addRoutes, hr]
      exact Or.inr ⟨_, r, rfl, ⟨[], routes, rfl, by simp⟩, hslash, err, hparse, rfl⟩

theorem subnets_find (ip : IP) :
    ((routes.filterMap (RouteConfig.subnet net)).find? fun subnet =>
      net.contains subnet.ipNet ip).map
      SubnetRoute.serverPEP = subnetRoute net routes ip := by
  unfold subnetRoute
  induction routes with
  | nil => rfl
  | cons r routes ih =>
    rw [List.find?_cons]
    by_cases hslash : slash ∈ r.originalDst
    · cases hparse : net.parseCIDR r.originalDst with
      | error err => simpa [RouteConfig.subnet, RouteConfig.covers, hslash, hparse] using ih
      | ok ipNet =>
        cases hin : net.contains ipNet ip with
        | true => simp [RouteConfig.subnet, RouteConfig.covers, hslash, hparse, hin]
        | false => simpa [RouteConfig.subnet, RouteConfig.covers, hslash, hparse, hin] using ih
    · simpa [RouteConfig.subnet, RouteConfig.covers, hslash] using ih

theorem Router.Holds.subnetMatch (h : router.Holds net routes) (host : Bytes) :
    router.subnetMatch net host = (net.parseIP host).bind (subnetRoute net routes) := by
  unfold Router.subnetMatch
  cases net.parseIP host with
  | none => rfl
  | some ip =>
    rw [h.subnets]
    exact subnets_find ip

/-- `Lookup` on the tables finds what the list of the routes says. -/
theorem Router.Holds.lookup (h : router.Holds net routes) (destAddr : Bytes) :
    router.lookup net destAddr =
      match serverFor net routes destAddr with
      | some pep => .ok pep
      | none => .error (noRoute destAddr) := by
  unfold Router.lookup serverFor
  simp only [h.exact, h.subnetMatch]
  cases exactRoute routes destAddr with
  | some pep => rfl
  | none =>
    cases net.splitHostPort destAddr with
    | none => rfl
    | some host =>
      simp only [Option.bind_some, Option.getD_some, Option.none_or]
      cases exactRoute routes host with
      | some pep => rfl
      | none => rfl

theorem Router.Holds.resolve (h : router.Holds net routes) (origDst : Bytes) :
    router.resolve net origDst = target net routes origDst := by
  unfold Router.resolve target
  rw [h.lookup]
  cases serverFor net routes origDst with
  | none => rfl
  | some pep => rfl

/-! ## Reloads -/

/-- Where step 2 of `handleTCPConn` stands. -/
inductive RouteStage (IPNet UDPAddr : Type) where
  /-- `c.router` has been read -/
  | holding (router : Router IPNet)
  /-- the address of the Server-PEP, or an error and the connection closed -/
  | done (result : Except Bytes UDPAddr)

structure Arrival (IPNet UDPAddr : Type) where
  origDst : Bytes
  stage : RouteStage IPNet UDPAddr
  /-- the position in `loaded` of the routes in use when `c.router` was read; no step reads it -/
  version : Nat

/-- The client's routing table and the connections that are being routed. -/
structure Dispatcher (IPNet UDPAddr : Type) where
  router : Router IPNet
  arrivals : List (Arrival IPNet UDPAddr) := []
  /-- the routes that have been loaded, the latest last; no step reads it -/
  loaded : List (List RouteConfig)

inductive DispatchEvent where
  /-- SIGHUP, with what the file holds then -/
  | sighup (file : Except Bytes (List RouteConfig))
  /-- a connection to `origDst` is intercepted, and its `handleTCPConn` reads `c.router` -/
  | accept (origDst : Bytes)
  /-- arrival `i` looks its destination up -/
  | lookup (i : Nat)

variable (net)

def Dispatcher.step (s : Dispatcher IPNet UDPAddr) :
    DispatchEvent → Option (Dispatcher IPNet UDPAddr)
  | .sighup file =>
    match file, loadConfig net file with
    | .ok routes, .ok router => some { s with router, loaded := s.loaded ++ [routes] }
    | _, _ => some s
  | .accept origDst =>
    some { s with arrivals := s.arrivals ++ [⟨origDst, .holding s.router, s.loaded.length - 1⟩] }
  | .lookup i =>
    match s.arrivals[i]? with
    | some ⟨origDst, .holding router, version⟩ =>
      some { s with arrivals := s.arrivals.set i ⟨origDst, .done (router.resolve net origDst),
        version⟩ }
    | _ => none

/-- The machine of a client that was started with `routes`, which loaded as `router`. -/
def routing (routes : List RouteConfig) (router : Router IPNet) :
    Machine (Dispatcher IPNet UDPAddr) DispatchEvent where
  init := { router, loaded := [routes] }
  step := Dispatcher.step net

/-- The arrival holds the table of the routes it is booked under, or has the result of these routes.
-/
def Arrival.Booked (loaded : List (List RouteConfig)) (a : Arrival IPNet UDPAddr) : Prop :=
  ∃ routes, loaded[a.version]? = some routes ∧
    match a.stage with
    | .holding router => router.Holds net routes
    | .done result => result = target net routes a.origDst

structure Dispatcher.Sound (s : Dispatcher IPNet UDPAddr) : Prop where
  current : ∃ routes, s.loaded.getLast? = some routes ∧ s.router.Holds net routes
  arrivals : ∀ a ∈ s.arrivals, a.Booked net s.loaded

variable {net} {s s' : Dispatcher IPNet UDPAddr} {e : DispatchEvent}

theorem Arrival.Booked.append {a : Arrival IPNet UDPAddr} {loaded : List (List RouteConfig)}
    (h : a.Booked net loaded) (routes : List RouteConfig) : a.Booked net (loaded ++ [routes]) := by
  obtain ⟨routes₀, hloaded, hstage⟩ := h
  refine ⟨routes₀, ?_, hstage⟩
  rw [List.getElem?_append_left (List.getElem?_eq_some_iff.mp hloaded).1]
  exact hloaded

/-- What a reload does: everything, or nothing. -/
theorem Dispatcher.sighup_cases (net : NetPkg IP IPNet UDPAddr) (s : Dispatcher IPNet UDPAddr)
    (file : Except Bytes (List RouteConfig)) :
    (∃ routes router, file = .ok routes ∧ (∀ r ∈ routes, r.Loads net) ∧
      loadConfig net (.ok routes) = .ok router ∧
      s.step net (.sighup file) = some { s with router, loaded := s.loaded ++ [routes] }) ∨
    (∃ msg, loadConfig net file = .error msg ∧
      (∀ routes, file = .ok routes → ∃ r, Fails net routes msg r) ∧
      s.step net (.sighup file) = some s) := by
  cases file with
  | error err =>
    right
    refine ⟨err, rfl, ?_, rfl⟩
    intro routes h
    cases h
  | ok routes =>
    rcases addRoutes_cases net {} routes with ⟨router, hload, hall⟩ | ⟨msg, r, hload, hfails⟩
    · left
      exact ⟨routes, router, rfl, hall, hload, by simp only [Dispatcher.step, loadConfig, hload]⟩
    · right
      refine ⟨msg, hload, ?_, by simp only [Dispatcher.step, loadConfig, hload]⟩
      intro routes' h
      cases h
      exact ⟨r, hfails⟩

theorem Dispatcher.Sound.step (h : s.Sound net) (hs : s.step net e = some s') : s'.Sound net := by
  cases e with
  | sighup file =>
    rcases Dispatcher.sighup_cases net s file with ⟨routes, router, -, -, hload, hs'⟩ |
      ⟨msg, -, -, hs'⟩
    · obtain rfl := Option.some.inj (hs'.symm.trans hs)
      constructor
      · exact ⟨routes, List.getLast?_concat, holds_of_loadConfig hload⟩
      · intro a ha
        exact (h.arrivals a ha).append routes
    · obtain rfl := Option.some.inj (hs'.symm.trans hs)
      exact h
  | accept origDst =>
    simp only [Dispatcher.step, Option.some.injEq] at hs
    subst hs
    refine ⟨h.current, ?_⟩
    intro a ha
    rcases List.mem_append.mp ha with ha | ha
    · exact h.arrivals a ha
    · obtain rfl := List.mem_singleton.mp ha
      obtain ⟨routes, hlast, hholds⟩ := h.current
      rw [List.getLast?_eq_getElem?] at hlast
      exact ⟨routes, hlast, hholds⟩
  | lookup i =>
    simp only [Dispatcher.step] at hs
    split at hs
    · rename_i origDst router version hi
      simp only [Option.some.injEq] at hs
      subst hs
      refine ⟨h.current, ?_⟩
      intro a ha
      rcases List.mem_or_eq_of_mem_set ha with ha | rfl
      · exact h.arrivals a ha
      · obtain ⟨routes, hloaded, hholds⟩ := h.arrivals _ (List.mem_of_getElem? hi)
        exact ⟨routes, hloaded, hholds.resolve origDst⟩
    · cases hs

/-- A result is final. -/
theorem Dispatcher.done_step {i : Nat} {a : Arrival IPNet UDPAddr} {result : Except Bytes UDPAddr}
    (ha : s.arrivals[i]? = some a) (hdone : a.stage = .done result) (hs : s.step net e = some s') :
    s'.arrivals[i]? = some a := by
  cases e with
  | sighup file =>
    rcases Dispatcher.sighup_cases net s file with ⟨routes, router, -, -, -, hs'⟩ | ⟨msg, -, -, hs'⟩
    · obtain rfl := Option.some.inj (hs'.symm.trans hs)
      exact ha
    · obtain rfl := Option.some.inj (hs'.symm.trans hs)
      exact ha
  | accept origDst =>
    simp only [Dispatcher.step, Option.some.injEq] at hs
    subst hs
    rw [List.getElem?_append_left (List.getElem?_eq_some_iff.mp ha).1]
    exact ha
  | lookup j =>
    simp only [Dispatcher.step] at hs
    split at hs
    · rename_i origDst router version hj
      simp only [Option.some.injEq] at hs
      subst hs
      -- arrival `j` still holds its table, so it is another one
      have hne : j ≠ i := by
        rintro rfl
        obtain rfl := Option.some.inj (hj.symm.trans ha)
        cases hdone
      simp only [List.getElem?_set_ne hne]
      exact ha
    · cases hs

theorem sound_of_reach (hload : loadConfig net (.ok routes) = .ok router)
    {ok : Dispatcher IPNet UDPAddr → DispatchEvent → Prop}
    (hr : Reach (routing net routes router) ok s) :
    s.Sound net := by
  induction hr with
  | init => exact ⟨⟨routes, rfl, holds_of_loadConfig hload⟩, fun a ha => by cases ha⟩
  | step _ _ hs ih => exact ih.step hs

/-- **Connections go where the routes say, across reloads.** The client was started with a file that
loads. In every state of every run of reloads, arrivals and look-ups, in any order:

* the table in use answers every destination as the routes that were loaded last;
* a connection that has been routed has the result of the routes that were in use when its
  `handleTCPConn` read the table, and no later step changes it;
* a reload takes all routes of the file, or it changes nothing: then the file cannot be read, or the
  error names the first of its routes that is no CIDR block though it has a slash. -/
theorem routing_agrees (hload : loadConfig net (.ok routes) = .ok router)
    {ok : Dispatcher IPNet UDPAddr → DispatchEvent → Prop}
    (hr : Reach (routing net routes router) ok s) :
    (∃ latest, s.loaded.getLast? = some latest ∧
      ∀ origDst, s.router.resolve net origDst = target net latest origDst) ∧
    (∀ (i : Nat) (a : Arrival IPNet UDPAddr) (result : Except Bytes UDPAddr),
      s.arrivals[i]? = some a → a.stage = .done result →
      (∃ used, s.loaded[a.version]? = some used ∧ result = target net used a.origDst) ∧
      ∀ s', Reach { routing net routes router with init := s } (fun _ _ => True) s' →
      s'.arrivals[i]? = some a) ∧
    ∀ file, ∃ s', s.step net (.sighup file) = some s' ∧
      ((∃ next, file = .ok next ∧ (∀ r ∈ next, r.Loads net) ∧ s'.loaded = s.loaded ++ [next]) ∨
        ∃ msg, loadConfig net file = .error msg ∧
        (∀ next, file = .ok next → ∃ r, Fails net next msg r) ∧ s' = s) := by
  have hsound := sound_of_reach hload hr
  refine ⟨?_, ?_, ?_⟩
  · obtain ⟨latest, hlast, hholds⟩ := hsound.current
    exact ⟨latest, hlast, hholds.resolve⟩
  · intro i a result ha hdone
    constructor
    · obtain ⟨used, hused, hresult⟩ := hsound.arrivals a (List.mem_of_getElem? ha)
      rw [hdone] at hresult
      exact ⟨used, hused, hresult⟩
    · intro s' hr'
      induction hr' with
      | init => exact ha
      | step _ _ hs ih => exact Dispatcher.done_step ih hdone hs
  · intro file
    rcases Dispatcher.sighup_cases net s file with ⟨next, router', rfl, hall, -, hs⟩ |
      ⟨msg, hmsg, hfails, hs⟩
    · exact ⟨_, hs, Or.inl ⟨next, rfl, hall, rfl⟩⟩
    · exact ⟨s, hs, Or.inr ⟨msg, hmsg, hfails, rfl⟩⟩

/-- Addresses of one byte; a subnet is the upper half of the byte and a slash. -/
def smallNet : NetPkg UInt8 UInt8 Bytes where
  parseCIDR a := if a.length = 2 then .ok (a.headD 0) else .error []
  contains ipNet ip := ipNet = ip / 16
  parseIP a := a.head?
  splitHostPort a := if 0x3A ∈ a then some (a.takeWhile (· ≠ 0x3A)) else none
  resolveUDPAddr a := .ok a

def smallRoutes : List RouteConfig := [⟨[1, slash], [10]⟩, ⟨[0x11], [11]⟩]

def smallRouter : Router UInt8 :=
  { exactMatches := AList.insert [0x11] [11] ∅, subnets := [⟨1, [10]⟩] }

/-- A connection reads the table, which is then replaced; a second reload fails. -/
def smallReload : List DispatchEvent :=
  [.accept [0x12, 0x3A, 80], .sighup (.ok [⟨[0x12], [12]⟩]), .sighup (.ok [⟨[slash], [13]⟩]),
    .lookup 0]

def smallReloaded : Dispatcher UInt8 Bytes where
  router := { exactMatches := AList.insert [0x12] [12] ∅ }
  arrivals := [⟨[0x12, 0x3A, 80], .done (.ok [10]), 0⟩]
  loaded := [smallRoutes, [⟨[0x12], [12]⟩]]

theorem routing_agrees_small :
    Reach (routing smallNet smallRoutes smallRouter) (fun _ _ => True) smallReloaded ∧
      smallReloaded.router.resolve smallNet [0x12, 0x3A, 80] = .ok [12] ∧
      ∃ used, smallReloaded.loaded[0]? = some used ∧ .ok [10] = target smallNet used
      [0x12, 0x3A, 80] := by
  have hload : loadConfig smallNet (.ok smallRoutes) = .ok smallRouter := rfl
  have hr : Reach (routing smallNet smallRoutes smallRouter) (fun _ _ => True) smallReloaded :=
    .of_runOk smallReload .init rfl
  exact ⟨hr, rfl, ((routing_agrees hload hr).2.1 0 _ _ rfl rfl).1⟩

end TcpPep.Routing

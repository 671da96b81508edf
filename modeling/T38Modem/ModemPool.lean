import T38Modem.Machine

namespace T38Modem

/-- The modems that were made, by their tokens, and those that are free to be taken for a call. -/
structure PseudoModemQ where
  pmodem_list : List String := []
  queue : List String := []
  deriving DecidableEq, Repr

namespace PseudoModemQ

/-- `CreateModem`: a modem whose token is there already is deleted. -/
def createModem (q : PseudoModemQ) (token : String) : PseudoModemQ :=
  if token ∈ q.pmodem_list then q else { q with pmodem_list := q.pmodem_list ++ [token] }

def enqueue (q : PseudoModemQ) (modem : String) : PseudoModemQ := { q with queue := q.queue ++ [modem] }

/-- `Enqueue` by the token. -/
def enqueueToken (q : PseudoModemQ) (token : String) : PseudoModemQ × Bool :=
  if token ∈ q.pmodem_list then (q.enqueue token, true) else (q, false)

/-- The first modem of the queue that serves is removed from it. -/
def take (q : PseudoModemQ) (serves : String → Bool) : PseudoModemQ × Option String :=
  match q.queue.find? serves with
  | none => (q, none)
  | some modem => ({ q with queue := q.queue.erase modem }, some modem)

/-- `ready` are the modems that pass `CheckRoute` and `IsReady` while the queue is searched. -/
def dequeueWithRoute (q : PseudoModemQ) (ready : List String) : PseudoModemQ × Option String :=
  q.take (· ∈ ready)

def dequeue (q : PseudoModemQ) (token : String) : PseudoModemQ × Option String := q.take (· == token)

end PseudoModemQ

structure ModemConnection where
  token : Nat
  pmodem : Option String
  deriving DecidableEq, Repr

/-- A dial in `OnMyCallback`, with the modem that it took and the connection that `SetUpCall` made. -/
structure Dial where
  modem : String
  made : Option Nat := none
  deriving DecidableEq, Repr

/-- What the call of a dial meets. -/
structure SetUpAnswers where
  onIncomingConnection : Bool
  onSetUp : Bool
  /-- `GetConnection(0)` still finds the connection. -/
  getConnection : Bool
  deriving DecidableEq, Repr

/-- `SetUpConnection` of the connection that began the call. -/
def SetUpAnswers.setUpConnection (a : SetUpAnswers) : Bool :=
  if a.onIncomingConnection = false then false else if a.onSetUp = false then false else true

/-- `SetUpCall` gives no call unless the connection was made and has been set up. -/
def SetUpAnswers.setUpCall (a : SetUpAnswers) : Option Nat → Option (Option Nat)
  | none => none
  | some token =>
    if a.setUpConnection then some (if a.getConnection then some token else none) else none

/-- `ModemEndPoint` and its connections that are not yet destroyed. -/
structure ModemEndPoint where
  pmodem_pool : PseudoModemQ := {}
  connections : List ModemConnection := []
  dials : List Dial := []
  /-- The calls of `SetUpConnection` that have a modem and have not yet looked at their own. -/
  settingUp : List (Nat × String) := []
  deriving DecidableEq, Repr

inductive PoolAct where
  | createModem (token : String)
  | addModem (token : String)
  | dial (token : String)
  /-- `MakeConnection`, for a dial and for a call from elsewhere. -/
  | makeDialed (d : Dial) (token : Nat)
  | makeConnection (token : Nat)
  | setUpReturns (d : Dial) (a : SetUpAnswers)
  | setUpConnection (token : Nat) (other : Bool) (ready : List String)
  | attach (token : Nat) (modem : String) (confirm : Bool)
  | destroy (token : Nat)
  deriving DecidableEq, Repr

inductive PoolSeen where
  | added (modem : String)
  | notAdded (modem : String)
  | dialed (modem : String) (calltoken : Option Nat)
  | setUp (token : Nat) (done : Bool)
  deriving DecidableEq, Repr

namespace ModemEndPoint

def connection (s : ModemEndPoint) (token : Nat) : Option ModemConnection :=
  s.connections.find? (·.token == token)

/-- `PMFree` -/
def pmFree (s : ModemEndPoint) : Option String → ModemEndPoint
  | none => s
  | some modem => { s with pmodem_pool := s.pmodem_pool.enqueue modem }

/-- The end of the callback of a dial, once `SetUpCall` has returned. -/
def dialed (s : ModemEndPoint) (d : Dial) (a : SetUpAnswers) : ModemEndPoint × List PoolSeen :=
  match a.setUpCall d.made with
  | some (some token) => (s, [.dialed d.modem (some token)])
  | some none | none => (s.pmFree (some d.modem), [.dialed d.modem none])

def step (s : ModemEndPoint) : PoolAct → Option (ModemEndPoint × List PoolSeen)
  | .createModem token => some ({ s with pmodem_pool := s.pmodem_pool.createModem token }, [])
  | .addModem token =>
    let r := s.pmodem_pool.enqueueToken token
    some ({ s with pmodem_pool := r.1 }, [if r.2 then .added token else .notAdded token])
  | .dial token =>
    match s.pmodem_pool.dequeue token with
    | (pool, none) => some ({ s with pmodem_pool := pool }, [.dialed token none])
    | (pool, some modem) => some ({ s with pmodem_pool := pool, dials := ⟨modem, none⟩ :: s.dials }, [])
  | .makeDialed d token =>
    if d ∈ s.dials ∧ d.made = none ∧ s.connection token = none then
      some ({ s with
        connections := ⟨token, some d.modem⟩ :: s.connections
        dials := ⟨d.modem, some token⟩ :: s.dials.erase d }, [])
    else none
  | .makeConnection token =>
    if s.connection token = none then
      some ({ s with connections := ⟨token, none⟩ :: s.connections }, [])
    else none
  | .setUpReturns d a =>
    if d ∈ s.dials then some ({ s with dials := s.dials.erase d }.dialed d a) else none
  | .setUpConnection token other ready =>
    if s.connection token = none then none
    else if other = false then some (s, [.setUp token false])
    else
      match s.pmodem_pool.dequeueWithRoute ready with
      | (pool, none) => some ({ s with pmodem_pool := pool }, [.setUp token false])
      | (pool, some modem) =>
        some ({ s with pmodem_pool := pool, settingUp := (token, modem) :: s.settingUp }, [])
  | .attach token modem confirm =>
    if (token, modem) ∈ s.settingUp then
      let s := { s with settingUp := s.settingUp.erase (token, modem) }
      match s.connection token with
      | none => none
      | some c =>
        if c.pmodem ≠ none then some (s.pmFree (some modem), [.setUp token false])
        else
          some ({ s with connections := { c with pmodem := some modem } :: s.connections.erase c },
            [.setUp token confirm])
    else none
  | .destroy token =>
    if s.settingUp.any (·.1 == token) then none
    else
      match s.connection token with
      | none => none
      | some c => some ({ s with connections := s.connections.erase c }.pmFree c.pmodem, [])

def machine : Machine ModemEndPoint PoolAct PoolSeen := ⟨step⟩

end ModemEndPoint

def PoolSeen.addedModem : PoolSeen → Option String
  | .added modem => some modem
  | .notAdded _ | .dialed .. | .setUp .. => none

/-- What is promised of the modems that were added. -/
structure PoolExclusive (es : List PoolSeen) (s : ModemEndPoint) : Prop where
  once : s.pmodem_pool.queue.Nodup
  free : ∀ modem ∈ s.pmodem_pool.queue, ∀ c ∈ s.connections, c.pmodem ≠ some modem
  kept : ∀ modem, .added modem ∈ es → modem ∈ s.pmodem_pool.queue ∨ (∃ c ∈ s.connections, c.pmodem = some modem) ∨
    ⟨modem, none⟩ ∈ s.dials ∨ ∃ token, (token, modem) ∈ s.settingUp
  single : s.connections.Pairwise fun c c' => ∀ modem, c.pmodem = some modem → c'.pmodem ≠ some modem

/-- A dial whose connection was made gets its call. -/
def Routable (_ : ModemEndPoint) : PoolAct → Prop
  | .setUpReturns d a => d.made ≠ none → a.setUpConnection = true ∧ a.getConnection = true
  | _ => True

/-- The modem that a dial has in its hands. -/
def Dial.inHand (d : Dial) : Option String := if d.made = none then some d.modem else none

namespace ModemEndPoint

/-- How often a modem is somewhere. -/
def places (s : ModemEndPoint) (modem : String) : Nat :=
  s.pmodem_pool.queue.count modem + (s.connections.filterMap (·.pmodem)).count modem +
    (s.dials.filterMap Dial.inHand).count modem + (s.settingUp.map (·.2)).count modem

end ModemEndPoint

end T38Modem

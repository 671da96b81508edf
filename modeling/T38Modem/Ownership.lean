import T38Modem.Engine
import T38Modem.Machine

namespace T38Modem

/-- Who may own a direction of an engine: a caller of its own handle, or one of the engine's fake threads. -/
inductive HOwner where
  | real (caller : Nat)
  | fake (thread : Nat)
  deriving DecidableEq, Repr

def HOwner.isFake : HOwner → Bool
  | .real _ => false
  | .fake _ => true

/-- A fake thread between `Resume` and the end of its `Main`. -/
inductive FakeThread where
  | started | running | leaving | stopped
  deriving DecidableEq, Repr

/-- The directions of the engines of a modem. -/
inductive Side where
  | t38In | t38Out | audioIn | audioOut
  deriving DecidableEq, Repr

/-- What `OnChangeEnableFake*` reads of the rest of the engine. -/
structure EngineSees where
  stateModem : StateModem
  sendAudio : Bool
  recvAudio : Bool
  deriving DecidableEq, Repr

/-- A direction of an engine, and the calls and threads that have not come to their end. -/
structure Direction where
  hOwner : Option HOwner := none
  isFakeOwner : Bool := false
  isEnableFake : Bool := false
  /-- The callers of `Open*` that wait for the callback of `OnClose*`. -/
  opening : List HOwner := []
  /-- The calls of `EnableFake*` that wait for it. -/
  changing : Nat := 0
  threads : List FakeThread := []
  deriving DecidableEq, Repr

inductive OwnerSeen where
  | opened (h : HOwner)
  | displaced (h g : HOwner)
  | closed (h : HOwner)
  /-- An atomic section of `Read`, `Write`, `PreparePacket` or `HandlePacket` that moves data. -/
  | used (h : HOwner)
  /-- A call of `EnableFake*` has taken effect, or found the flag as it wants it. -/
  | enabled | disabled
  | dropped (g : HOwner)
  deriving DecidableEq, Repr

inductive OwnerAct where
  | «open» (caller : Nat)
  /-- The callback of `OnClose*` is over for a caller of `Open*`. -/
  | reopen (h : HOwner)
  | close (caller : Nat)
  | use (caller : Nat)
  | enableFake (enable : Bool) (sees : EngineSees)
  | changed (sees : EngineSees)
  | fakeOpen (thread : Nat)
  | fakeUse (thread : Nat)
  | fakeClose (thread : Nat)
  deriving DecidableEq, Repr

namespace Direction

/-- The loop of `OpenIn` and `OpenOut` up to the callback of `OnClose*`, in which others take the mutex. -/
def openBy (d : Direction) (h : HOwner) (fake : Bool) : Direction × List OwnerSeen :=
  match d.hOwner with
  | some g =>
    if g = h then (d, [])
    else if fake then (d, [])
    else ({ d with hOwner := none, opening := h :: d.opening }, [.displaced h g])
  | none => ({ d with hOwner := some h, isFakeOwner := fake }, [.opened h])

/-- `CloseIn` and `CloseOut`. -/
def closeBy (d : Direction) (h : HOwner) : Direction × List OwnerSeen :=
  if d.hOwner = some h then
    ({ d with
      hOwner := none
      isEnableFake := if d.isFakeOwner then d.isEnableFake else false }, [.closed h])
  else (d, [])

/-- What `OnChangeEnableFake*` of an engine does after that of `EngineBase`: `T38Engine` has no thread
that feeds it. -/
def onChangeEnableFake (side : Side) (sees : EngineSees) (d : Direction) : Direction :=
  if d.hOwner.isSome ∨ d.isEnableFake = false then d
  else
    let starts := match side with
      | .t38In => false
      | .t38Out => sees.stateModem.isOut
      | .audioIn => sees.recvAudio
      | .audioOut => sees.sendAudio
    if starts then { d with threads := d.threads ++ [.started] } else d

/-- `EnableFakeIn` and `EnableFakeOut`, up to the callback of `OnClose*` when a fake owner goes. -/
def enableFake (side : Side) (sees : EngineSees) (d : Direction) (enable : Bool) : Direction × List OwnerSeen :=
  let seen := if enable then OwnerSeen.enabled else .disabled
  if d.isEnableFake = enable then (d, [seen])
  else
    let d := { d with isEnableFake := enable }
    match d.hOwner with
    | some g =>
      if enable = false ∧ d.isFakeOwner = true then
        ({ d with hOwner := none, changing := d.changing + 1 }, [seen, .dropped g])
      else (d.onChangeEnableFake side sees, [seen])
    | none => (d.onChangeEnableFake side sees, [seen])

/-- A section of `Read`, `Write`, `PreparePacket` or `HandlePacket`: each begins with this test, and so
does each of them after a callback. -/
def useBy (d : Direction) (h : HOwner) : Bool := d.hOwner = some h

def step (side : Side) (d : Direction) : OwnerAct → Option (Direction × List OwnerSeen)
  | .open n => some (d.openBy (.real n) false)
  | .reopen h =>
    if h ∈ d.opening then some ({ d with opening := d.opening.erase h }.openBy h false) else none
  | .close n => some (d.closeBy (.real n))
  | .use n => some (d, if d.useBy (.real n) then [.used (.real n)] else [])
  | .enableFake enable sees => some (d.enableFake side sees enable)
  | .changed sees =>
    if d.changing = 0 then none
    else some (({ d with changing := d.changing - 1 } : Direction).onChangeEnableFake side sees, [])
  | .fakeOpen t =>
    if d.threads[t]? = some .started then
      some (({ d with threads := d.threads.set t .running } : Direction).openBy (.fake t) true)
    else none
  | .fakeUse t =>
    if d.threads[t]? = some .running then
      if d.useBy (.fake t) then some (d, [.used (.fake t)])
      else some ({ d with threads := d.threads.set t .leaving }, [])
    else none
  | .fakeClose t =>
    -- the thread also leaves when the modem is no longer there
    if d.threads[t]? = some .running ∨ d.threads[t]? = some .leaving then
      some (({ d with threads := d.threads.set t .stopped } : Direction).closeBy (.fake t))
    else none

def machine (side : Side) : Machine Direction OwnerAct OwnerSeen := ⟨step side⟩

/-- The last call of `EnableFake*` that took effect was one that disables. -/
def disabledBy (es : List OwnerSeen) : Bool :=
  es.foldl (fun off e => match e with
    | .disabled => true
    | .enabled => false
    | _ => off) false

/-- A fake thread has come to its `Open*`. -/
def begun (d : Direction) (t : Nat) : Bool :=
  match d.threads[t]? with
  | none | some .started => false
  | some _ => true

/-- A fake thread that has come late, and finds nobody there, is still wanted. -/
def Wanted (d : Direction) : OwnerAct → Prop
  | .fakeOpen _ => d.hOwner = none → d.isEnableFake = true
  | _ => True

/-- Who has the direction after an event, if the one who has it allows the event. -/
def handover : Option HOwner → OwnerSeen → Option (Option HOwner)
  | none, .opened h => some (some h)
  | some g, .displaced _ g' | some g, .closed g' | some g, .dropped g' => if g = g' then some none else none
  | some g, .used h => if g = h then some (some g) else none
  | o, .enabled | o, .disabled => some o
  | _, _ => none

/-- What is promised of the owner of a direction. -/
structure Exclusive (side : Side) (es : List OwnerSeen) (d : Direction) : Prop where
  handed : es.foldlM handover none = some d.hOwner
  close : ∀ h, d.hOwner ≠ some h → d.closeBy h = (d, [])
  never : ∀ t g, .displaced (.fake t) g ∉ es
  yields : ∀ n t, d.hOwner = some (.fake t) →
    ∃ d', step side d (.open n) = some (d', [.displaced (.real n) (.fake t)]) ∧ d'.hOwner = none
  gone : es.Pairwise fun e e' => ∀ h t, e = .displaced h (.fake t) → e' ≠ .used (.fake t) ∧ e' ≠ .opened (.fake t)
  off : disabledBy es = true → ∀ t, d.hOwner ≠ some (.fake t)

end Direction

end T38Modem

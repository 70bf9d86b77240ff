import RaisingEffects.Logging.Handler

/-!
# Channels

Records are logged to channels. A channel belongs to the channels whose names its own name continues
after a point, and every channel belongs to the root. A channel without a level has that of the next
channel above it. A record that reaches the level is written by the handlers of its channel and then
by those of the channels above, up to one that does not pass records on. Some handlers hold records
back for a while.

* `Channels.initial` are the channels as the program starts with them.
* `Channels.configure` sets them up from settings.
* `Channels.write` logs a record and `Channels.finish` what was held back; both give the lines that
  are written.
-/

namespace RaisingEffects

namespace Logging

structure Channel where
  /-- The least level of its records, or zero if it has none of its own. -/
  level : Int := 0
  handlers : List Handler := []
  /-- Whether records reach the channel above. -/
  passesOn : Bool := true
  /-- Whether its own records are left out. -/
  isMuted : Bool := false
deriving DecidableEq, Repr

structure Channels where
  root : Channel
  named : Table Channel
  /-- The handlers of the last settings, by their numbers. -/
  handlers : List Handler := []
  /-- These handlers in the order in which they were made. -/
  made : List Handler := []
  /-- The records that are held back, with the numbers of the handlers that do so. -/
  held : List (Nat × Record) := []
deriving DecidableEq, Repr

/-! ## Setting up -/

namespace Channel

/-- Gives a channel a level, which stays if it is not set, and handlers. -/
def configure (c : Channel) (settings own : Mapping) : Channel :=
  { c with level := (levelIn own "level").getD c.level, handlers := handlersIn settings own }

def configureNamed (c : Channel) (settings own : Mapping) : Channel :=
  { c.configure settings own with
    isMuted := false, passesOn := (given? own "propagate").elim c.passesOn holds }

/-- A channel that says nothing of its own any more. -/
def reset (c : Channel) : Channel := { c with level := 0, handlers := [], passesOn := true }

end Channel

/-- Whether a name continues another one after a point. -/
def continuesName (name above : String) : Bool := (above ++ ".").toList.isPrefixOf name.toList

/-- The names of the channels that a channel belongs to, itself included. -/
def namesAbove (name : String) : List String :=
  let parts := name.toList.splitOn '.'
  ((List.range parts.length).map fun n =>
    String.ofList (['.'].intercalate (parts.take (n + 1)))).reverse

namespace Channels

/-- Changes the channel with the given name, which is made if it is not there. An empty name is that
of the root. -/
def change (cs : Channels) (name : String) (f : Channel → Channel) : Channels :=
  if name = "" ∨ name = "root" then { cs with root := f cs.root }
  else { cs with named := cs.named.set name (f ((cs.named.get? name).getD {})) }

def nameIn : Value → Option String
  | .text s => some s
  | v => if holds v then none else some ""

def configureEach (settings : Mapping) (cs : Channels) : Mapping → Channels
  | [] => cs
  | (key, .map own) :: rest =>
    configureEach settings
      ((nameIn key).elim cs fun name => cs.change name (·.configureNamed settings own)) rest
  | _ :: rest => configureEach settings cs rest

/-- The channel after a set-up that did not name it. It says nothing of its own any more if it
belongs to a channel that was named, and may be muted otherwise. -/
def leftOut (named : List String) (mute : Bool) (name : String) (c : Channel) : Channel :=
  if named.any (continuesName name) then c.reset else { c with isMuted := mute }

def configure (cs : Channels) (settings : Mapping) : Channels :=
  let settings := followReferences settings
  let own := settings.nested "loggers"
  let names := own.filterMap fun e => nameIn e.1
  let known := cs.named.flatMap fun c => namesAbove c.1
  let mute := (settings.get? "disable_existing_loggers").all holds
  let set := configureEach settings cs own
  let named := set.named.map fun (name, c) =>
    if (cs.named.get? name).isSome && !names.contains name then
      (name, leftOut (names.filter known.contains) mute name c)
    else (name, c)
  let root := match settings.get? "root" with
    | some (.map (e :: es)) => set.root.configure settings (e :: es)
    | _ => set.root
  { root, named, handlers := handlersOf settings, made := makingOrder settings }

def opened (cs : Channels) : List LogFile := cs.made.filterMap Handler.opens?

/-- The parts of the program that log, each of which has a channel. -/
def parts : List String := ["checker", "delegation", "inference"]

def partName (part : String) : String := s!"{channelName}.effects.{part}"

def initial : Channels :=
  let cs : Channels := configure { root := { level := 30 }, named := [] } defaults
  parts.foldl (fun cs part => cs.change (partName part) id) cs

/-- The level of the channel that the others belong to. -/
def level (cs : Channels) : Int := ((cs.named.get? channelName).getD {}).level

def setLevel (cs : Channels) (level : Int) : Channels :=
  cs.change channelName fun c => { c with level }

/-- A channel and those that it belongs to, from the bottom to the root. -/
def chain (cs : Channels) (name : String) : List Channel :=
  (namesAbove name).filterMap cs.named.get? ++ [cs.root]

/-- The least level of records that count: that of the first channel that has one. -/
def threshold (chain : List Channel) : Int :=
  ((chain.find? fun c => c.level ≠ 0).map Channel.level).getD 0

def reached : List Channel → List Handler
  | [] => []
  | c :: chain => c.handlers ++ if c.passesOn then reached chain else []

end Channels

/-! ## Writing -/

/-- What comes of logging: the channels afterwards, the lines that are written, with their streams,
and why it ended early if it did. -/
structure Delivery where
  channels : Channels
  lines : List (Stream × String) := []
  fault : Option LogFault := none
deriving DecidableEq, Repr

/-- Goes on with logging unless it ended. -/
def Delivery.followedBy (d : Delivery) (next : Channels → Delivery) : Delivery :=
  match d.fault with
  | some _ => d
  | none =>
    let e := next d.channels
    { e with lines := d.lines ++ e.lines }

namespace Channels

def each {α : Type} (deliver : Channels → α → Delivery) (cs : Channels) : List α → Delivery
  | [] => { channels := cs }
  | a :: as => (deliver cs a).followedBy fun cs => each deliver cs as

def heldBy (cs : Channels) (h : Handler) : List Record :=
  (cs.held.filter fun e => e.1 = h.number).map Prod.snd

/-- The channels after a handler has taken a record to hold it back. -/
def hold (cs : Channels) (h : Handler) (r : Record) : Channels :=
  { cs with held := cs.held ++ [(h.number, r)] }

/-- The channels after a handler has handed on all that it held back. -/
def clear (cs : Channels) (h : Handler) : Channels :=
  { cs with held := cs.held.filter fun e => e.1 ≠ h.number }

/-- Hands on what a handler holds back, if it has a target. -/
def release (cs : Channels) (h : Handler) (target : Option Nat)
    (deliver : Handler → Channels → Record → Delivery) : Delivery :=
  match target.bind (cs.handlers[·]?) with
  | none => { channels := cs }
  | some t =>
    (each (deliver t) cs (cs.heldBy h)).followedBy fun cs => { channels := cs.clear h }

/-- Whether a handler hands on what it holds back, of which `r` is the last record. -/
def isFull (cs : Channels) (h : Handler) (r : Record) (capacity release : Bound) :
    Except LogFault Bool := do
  if ← capacity.isReached (cs.heldBy h).length then return true
  release.isReached r.level

/-- Gives a record to a handler. It passes through at most `n` handlers that hold records back. -/
def handle : Nat → Handler → Channels → Record → Delivery
  | n, h, cs, r =>
    match h.sink, n with
    | .stream s, _ => { channels := cs, lines := (h.line? r).toList.map (s, ·) }
    | .refused, _ => { channels := cs, fault := some .noWriter }
    | .handler capacity release target, n + 1 =>
      let cs := cs.hold h r
      match cs.isFull h r capacity release with
      | .error fault => { channels := cs, fault := some fault }
      | .ok false => { channels := cs }
      | .ok true => cs.release h target (handle n)
    | _, _ => { channels := cs }

def offer (r : Record) (cs : Channels) (h : Handler) : Delivery :=
  match h.level.isReached r.level with
  | .error fault => { channels := cs, fault := some fault }
  | .ok false => { channels := cs }
  | .ok true => handle cs.handlers.length h cs r

def write (cs : Channels) (r : Record) : Delivery :=
  let chain := cs.chain r.channel
  if chain.head?.any Channel.isMuted || r.level < threshold chain then { channels := cs }
  else each (offer r) cs (reached chain)

/-- Ends logging: every handler hands on what it still holds back, the one made last first. -/
def finish (cs : Channels) : Delivery :=
  each (fun cs h =>
    match h.sink with
    | .handler _ _ target => cs.release h target (handle cs.handlers.length)
    | _ => { channels := cs }) cs cs.made.reverse

end Channels

end Logging

end RaisingEffects

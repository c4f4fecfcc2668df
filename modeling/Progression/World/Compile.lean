import Progression.World.Build

/-!
# The rules of worlds

Compiling connects the exits by the names of their targets and gives every spot
the rule of its text.  The subrules that come up get places of their own in
rounds: each round gives every pending subrule an internal event location in its
region, unless its rule can never hold, and may bring up further subrules.  An
error ends the work where it stands.

## Main definitions

* `Build` — work on worlds, which an error may end.
* `connectExits`, `compileWorld` — the two parts of a compilation.
* `settle`, `settleRounds` — give places to pending subrules.
* `compileRules`, `finishRules` — the whole.
-/

namespace Progression

open Rule

/-- Work on worlds; an error leaves them as they are at that point. -/
abbrev Build := ExceptT RuleError (StateM Multiworld)

/-- Connect an exit to the region that it names. -/
def connectExit (id : ExitId) : Build Unit := do
  let m ← get
  let e := m.exit id
  match m.regionNamed? e.world e.target with
  | none => throw (.unknownRegion e.name e.target)
  | some target =>
    set ((m.modifyExit id fun e => { e with connected := some target }).modifyRegion target
      fun r => { r with entrances := appendNew r.entrances id })

/-- Connect all exits. -/
def connectExits : Build Unit := do
  (← get).exitIds.forM connectExit

/-- Compile a rule of a world for a spot. -/
def compileAt (templates : Templates) (w : WorldId) (anchor : Anchor)
    (action : Lexicon → Resolve Formula) : Build Guard := do
  let m ← get
  let lx : Lexicon := ⟨(m.world w).profile, templates, some anchor⟩
  let (result, workshop) :=
    Workshop.compile ⟨⟨m.catalog, (m.world w).ledger⟩, m.book⟩ (action lx)
  set ({ m with catalog := workshop.registry.catalog, book := workshop.book }.modifyWorld w
    fun x => { x with ledger := workshop.registry.ledger })
  result

/-- Compile the rule of an exit. -/
def compileExit (templates : Templates) (id : ExitId) : Build Unit := do
  let m ← get
  let e := m.exit id
  let anchor : Anchor := ⟨e.name, (m.region e.parent).name, none⟩
  let guard ← compileAt templates e.world anchor (resolveText · e.text)
  modify fun m => m.modifyExit id fun e => { e with guard }

/-- Compile the rule of a location. -/
def compileLocation (templates : Templates) (id : LocationId) : Build Unit := do
  let m ← get
  let l := m.location id
  let anchor : Anchor := ⟨l.name, (m.region l.parent).name, some l.kind⟩
  let guard ← compileAt templates l.world anchor (resolveText · l.text)
  modify fun m => m.modifyLocation id fun l =>
    { l with guard, always := guard.isAlways, never := guard.isNever }

/-- Compile the rules of a world's exits, then those of its locations. -/
def compileWorld (templates : Templates) (w : WorldId) : Build Unit := do
  let m ← get
  (m.exitIds.filter fun id => (m.exit id).world == w).forM (compileExit templates)
  (m.locationIds.filter fun id => (m.location id).world == w && !(m.location id).internal).forM
    (compileLocation templates)

/-- Give a subrule its place in a world. -/
def settle (templates : Templates) (w : WorldId) (s : Subrule) : Build Unit := do
  match (← get).regionNamed? w s.region with
  | none => throw (.unknownRegion s.event s.region)
  | some parent =>
    let anchor : Anchor := ⟨s.event, s.region, some eventKind⟩
    let guard ← compileAt templates w anchor (resolve · s.body)
    unless guard.isNever do
      modify fun m => (m.pushLocation {
        name := s.event, kind := eventKind, world := w, parent, guard, text := s.body.text
        item := some ⟨s.item, w⟩, internal := true, locked := true
        always := guard.isAlways, never := false }).2

/-- The subrules of a world that have no place, to be given one. -/
def takePending (w : WorldId) : Build (List Subrule) := do
  let (pending, ledger) := ((← get).world w).ledger.takePending
  modify fun m => m.modifyWorld w fun x => { x with ledger }
  return pending

/-- Give places to the pending subrules of a world in at most the given number of
rounds.  The result says whether none is left. -/
def settleRounds (templates : Templates) (w : WorldId) : Nat → Build Bool
  | 0 => return ((← get).world w).ledger.pending.isEmpty
  | rounds + 1 => do
    let pending ← takePending w
    if pending.isEmpty then return true
    pending.forM (settle templates w)
    settleRounds templates w rounds

/-- Give places to the pending subrules of several worlds, up to the first world
that is not done within the given number of rounds. -/
def settleWorlds (templates : Templates) (rounds : Nat) : List WorldId → Build Bool
  | [] => return true
  | w :: ws => do
    if ← settleRounds templates w rounds then settleWorlds templates rounds ws
    else return false

/-- Give places to all pending subrules. -/
def finishRules (templates : Templates) (rounds : Nat) : Build Bool := do
  settleWorlds templates rounds (← get).worldIds

/-- Connect all exits, compile all rules and give places to all subrules. -/
def compileRules (templates : Templates) (rounds : Nat) : Build Bool := do
  connectExits
  (← get).worldIds.forM (compileWorld templates)
  finishRules templates rounds

end Progression

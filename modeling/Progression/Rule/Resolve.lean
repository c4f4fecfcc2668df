import Progression.Rule.Fold
import Progression.Rule.Compare
import Progression.Rule.Ledger
import Progression.Rule.Lexicon

/-!
# Resolving rules

Resolving a rule looks up every name in it and gives the formula that it
stands for.  A name that stands for a condition is, in this order, a test of the
time of day, a built-in test, a template, an item, a constant, or else a new
event if it is capitalised.  Every operand of a connective is resolved, also
when the connective turns out constant, so events and subrules are registered
wherever they are named.

## Main definitions

* `Resolve` — a result or an error, either way with what was registered.
* `condition` — the formula of a term, given how calls of templates expand.
* `conditionAt` — the formula of a term within a number of nested expansions.
* `resolve` — the formula of a rule.
-/

namespace Progression.Rule

/-- A result or an error, either way with the registry as it is afterwards. -/
abbrev Resolve := ExceptT RuleError (StateM Registry)

/-- How deep calls of templates may be nested. -/
def expansionLimit : Nat := 64

/-- The names whose value is only known while rules are evaluated. -/
def isRuntimeName (word : String) : Bool := word == "age" || word == "spot" || word == "tod"

/-- Whether a name can be that of a new event: capitalised and longer than a letter. -/
def isEventName (word : String) : Bool :=
  match word.toList with
  | c :: d :: _ => c.isUpper && Text.isWord d
  | _ => false

section

variable (lx : Lexicon)

/-! ### Items -/

/-- The item of a name, or the new event of a display name. -/
def itemOrEvent (name : String) : Resolve ItemId := do
  let r ← get
  match r.catalog.lookup name with
  | some id => return id
  | none => modifyGet fun r => r.declareEvent name

/-- The item that an identifier names in the place of an item. -/
def itemNamed (word : String) (term : Term) : Resolve ItemId := do
  let r ← get
  match r.catalog.lookup word with
  | some id => return id
  | none =>
    if isEventName word then modifyGet fun r => r.declareEvent (Name.unescape word)
    else throw (.unknownName lx.spot word term)

/-- The item that an argument names. -/
def itemArgument (func : String) (arg term : Term) : Resolve ItemId :=
  match arg with
  | .name word => itemNamed lx word term
  | .str s => itemOrEvent s
  | _ => throw (.invalidArgument lx.spot func .notAnItem term)

/-- The integer that an argument stands for. -/
def integerArgument (func : String) (arg term : Term) : Resolve Int := do
  match (← lx.literal? arg).bind Value.int? with
  | some n => return n
  | none => throw (.invalidArgument lx.spot func .notAnInteger term)

/-- The display name that an argument gives, quoted or as an identifier. -/
def nameArgument (func : String) (arg term : Term) : Resolve String :=
  match arg with
  | .str s => return s
  | .name word => return Name.unescape word
  | _ => throw (.invalidArgument lx.spot func .notAName term)

/-- The number of arguments has to be right. -/
def checkArity (name : String) (args : List Term) (due : Nat) (term : Term) : Resolve Unit :=
  if args.length = due then return ()
  else throw (.arity lx.spot name due args.length term)

/-- The only argument of a call. -/
def onlyArgument (name : String) (args : List Term) (term : Term) : Resolve Term :=
  match args with
  | [arg] => return arg
  | _ => throw (.arity lx.spot name 1 args.length term)

/-! ### Counts and comparisons -/

/-- The formula of an item and its count. -/
def countTest (id : ItemId) (count term : Term) : Resolve Formula :=
  match count with
  | .int n => return .has id n
  | .name word =>
    match (lx.constant? word).bind Value.int? with
    | some n => return .has id n
    | none => throw (.countTuple lx.spot .notAnIntegerSetting term)
  | _ => throw (.countTuple lx.spot .notANumber term)

/-- The formula of a pair of an item and a count. -/
def countCondition (items : List Term) (term : Term) : Resolve Formula := do
  let [item, count] := items
    | throw (.countTuple lx.spot .notAPair term)
  let id ← match item with
    | .name word => itemNamed lx word term
    | .str s => itemOrEvent s
    | _ => throw (.countTuple lx.spot .notAnItem term)
  countTest lx id count term

/-- A side of the comparison `term`. -/
def operand (side term : Term) : Resolve Operand := do
  match side with
  | .name "age" => return .age
  | .name word =>
    match lx.constant? word with
    | some v => return .literal v
    | none =>
      let r ← get
      match (r.catalog.lookup word).bind r.catalog.get? with
      | some e => return .literal (.str e.name)
      | none => throw (.unknownName lx.spot word term)
  | .call "item_count" args =>
    let arg ← onlyArgument lx "item_count" args term
    return .itemCount (← itemArgument lx "item_count" arg term)
  | .call "heart_count" args =>
    checkArity lx "heart_count" args 0 term
    return .heartCount
  | side =>
    match ← lx.literal? side with
    | some v => return .literal v
    | none => throw (.unsupported lx.spot .operandDue term)

/-- The formula of one comparison; literals are compared at once. -/
def foldComparison (op : Comparator) (left right : Operand) (term : Term) :
    Except RuleError Formula :=
  match left, right with
  | .literal a, .literal b =>
    match op.holds? (.ofValue a) (.ofValue b) with
    | some result => .ok (.const result)
    | none => .error (.unsupported lx.spot (.undefined a op.symbol b) term)
  | _, _ => .ok (.compare op left right)

/-- The comparisons of a chain that goes on after the side `left`. -/
def chainConditions (term : Term) (left : Operand) :
    List (Comparator × Term) → Resolve (List Formula)
  | [] => return []
  | (op, t) :: rest => do
    let right ← operand lx t term
    let f ← foldComparison lx op left right term
    return f :: (← chainConditions term right rest)

/-- A name that is nothing but its own text. -/
def isPlainName (word : String) : Bool := !isRuntimeName word && (lx.constant? word).isNone

/-- The formula of a chain of comparisons.  Two plain names are equal if they are
the same name. -/
def comparison (left : Term) (rest : List (Comparator × Term)) : Resolve Formula := do
  let term := Term.compare left rest
  let chain : Resolve Formula := do
    let l ← operand lx left term
    return .group .and (← chainConditions lx term l rest)
  match left, rest with
  | .name l, [(.eq, .name r)] =>
    if isPlainName lx l && isPlainName lx r then return .const (l == r) else chain
  | .name l, [(.ne, .name r)] =>
    if isPlainName lx l && isPlainName lx r then return .const (l != r) else chain
  | _, _ => chain

/-- The condition that a term stands for if it is made of constants. -/
def constantCondition (term : Term) : Resolve Formula := do
  match ← lx.literal? term with
  | some v => return .const v.truthy
  | none => throw (.unsupported lx.spot .conditionDue term)

/-! ### Subrules -/

/-- The rule that the argument of a subrule stands for: quoted text is read as a
rule, unless it is a mere name or no rule. -/
def subruleBody : Term → Term
  | .str s =>
    match parse s with
    | .ok (.name _) => .str s
    | .ok t => t
    | .error _ => .str s
  | t => t

/-- The formula that asks whether a rule holds in a region. -/
def subruleCondition (region : String) (body : Term) : Resolve Formula := do
  return .item (← modifyGet fun r => r.registerSubrule region (subruleBody body))

/-! ### Songs and the time of day -/

/-- The formula for the ocarina buttons that a song needs; a song without known
notes needs none. -/
def songButtons (catalog : Catalog) (song : String) : Formula :=
  if song = "Scarecrow Song" then .atLeast .ocarinaButtons 2
  else
    match lx.profile.songs.find? song with
    | some notes => .hasAll (notes.toList.filterMap catalog.ocarinaButton?)
    | none => .const true

/-- The formula for playing the song that turns day into night. -/
def sunSong : Resolve Formula := do
  let term := Term.name "Suns_Song"
  let ocarina ← itemNamed lx "Ocarina" term
  let song ← itemNamed lx "Suns_Song" term
  let r ← get
  return .group .and [.hasAll [ocarina, song], songButtons lx r.catalog "Suns Song"]

/-- A test of the time of day. -/
inductive DayTest where
  | day
  | night
  /-- The hours of the gravekeeper, which no song brings about. -/
  | gravekeeper
  deriving DecidableEq

/-- The test of the time of day that a name stands for. -/
def DayTest.ofName? (word : String) : Option DayTest :=
  if word = "at_day" then some .day
  else if word = "at_night" then some .night
  else if word = "at_dampe_time" then some .gravekeeper
  else none

/-- A test of the time of day that playing a song can settle. -/
def timeOrSong (times : TimeOfDay) (song : Formula) : Formula :=
  if song = .const true then .const true
  else if song = .const false then .time times none
  else .time times (some song)

/-- Whether night on the spot asks for the song whatever the time: the night
tokens do so in worlds with that setting. -/
def isNightToken : Bool :=
  (lx.anchor.bind Anchor.kind) == some "GS Token" &&
    lx.profile.settings.flag "logic_no_night_tokens_without_suns_song"

/-! ### Built-in tests -/

/-- The formula of `has`, with or without a count. -/
def hasCondition (args : List Term) (term : Term) : Resolve Formula := do
  match args with
  | [item] => return .item (← itemArgument lx "has" item term)
  | [item, count] =>
    let id ← itemArgument lx "has" item term
    return .has id (← integerArgument lx "has" count term)
  | _ => throw (.arity lx.spot "has" 2 args.length term)

/-- The items that a call lists, as its arguments or as one tuple. -/
def listedItems : List Term → List Term
  | [.tuple items] => items
  | args => args

/-- The formula of a test for several items. -/
def itemsCondition (name : String) (test : List ItemId → Formula) (args : List Term)
    (term : Term) : Resolve Formula := do
  let items := listedItems args
  if items.isEmpty then throw (.invalidArgument lx.spot name .noItems term)
  return test (← items.mapM fun item => itemArgument lx name item term)

/-- The formula of a test that takes no argument. -/
def plainCondition (name : String) (f : Formula) (args : List Term) (term : Term) :
    Resolve Formula := do
  checkArity lx name args 0 term
  return f

/-- The formula of a test of a number over a group of items. -/
def tallyCondition (name : String) (tally : Tally) (args : List Term) (term : Term) :
    Resolve Formula := do
  let arg ← onlyArgument lx name args term
  let n ← integerArgument lx name arg term
  return if n ≤ 0 then .const true else .atLeast tally (Count.clamp n)

/-- The formula for the notes of a song. -/
def songCondition (name : String) (args : List Term) (term : Term) : Resolve Formula := do
  let arg ← onlyArgument lx name args term
  let song ← nameArgument lx name arg term
  let r ← get
  return songButtons lx r.catalog song

/-- Whether a decimal is at least three quarters once it is rounded to 53 binary
places, halves upwards. -/
def isThreeQuarters (digits : String) : Bool :=
  let cs := digits.toList
  let whole := cs.takeWhile Char.isDigit
  let fraction := cs.drop (whole.length + 1)
  decide ((3 * Nat.pow 2 52 - 1) * Nat.pow 10 fraction.length ≤
    ofDigits (whole ++ fraction) * Nat.pow 2 54)

/-- Whether the number of hearts that an argument gives is at least three quarters. -/
def heartsArgument (name : String) (arg term : Term) : Resolve Bool := do
  match arg with
  | .decimal digits => return isThreeQuarters digits
  | arg =>
    match (← lx.literal? arg).bind Value.int? with
    | some n => return decide (1 ≤ n)
    | none => throw (.invalidArgument lx.spot name .notHearts term)

/-- The formula for surviving damage, which the damage multiplier decides. -/
def damageCondition (name : String) (args : List Term) (term : Term) : Resolve Formula := do
  let arg ← onlyArgument lx name args term
  let heavy ← heartsArgument lx name arg term
  let multiplier := (lx.profile.settings.str? "damage_multiplier").getD "normal"
  return .const (multiplier != "ohko" && !(heavy && multiplier == "quadruple"))

/-- Whether the world starts at night. -/
def startsAtNight : Bool :=
  let start := (lx.profile.settings.str? "starting_tod").getD "default"
  start == "sunset" || start == "evening" || start == "midnight" || start == "witching-hour"

/-- The formula of a region's shortcuts. -/
def shortcutCondition (name : String) (args : List Term) (term : Term) : Resolve Formula := do
  let arg ← onlyArgument lx name args term
  let region ← nameArgument lx name arg term
  return .const (lx.profile.shortcuts.contains region)

/-- The formula of a count in the place of a condition: it is not zero. -/
def nonzeroCondition (term : Term) : Resolve Formula := do
  return .compare .gt (← operand lx term term) (.literal (.int 0))

/-! ### Conditions -/

/-- How the call `term` of a template with arguments is resolved. -/
abbrev Expansion := Template → List Term → Term → Resolve Formula

variable (expand : Expansion)

/-- The formula of a built-in test, if the name is that of one. -/
def builtin? (name : String) (args : List Term) (term : Term) : Option (Resolve Formula) :=
  match name with
  | "has" => some (hasCondition lx args term)
  | "has_any_of" => some (itemsCondition lx name .hasAny args term)
  | "has_all_of" => some (itemsCondition lx name .hasAll args term)
  | "has_bottle" => some (plainCondition lx name .bottle args term)
  | "has_hearts" => some (tallyCondition lx name .hearts args term)
  | "has_medallions" => some (tallyCondition lx name .medallions args term)
  | "has_stones" => some (tallyCondition lx name .stones args term)
  | "has_dungeon_rewards" => some (tallyCondition lx name .dungeonRewards args term)
  | "has_ocarina_buttons" => some (tallyCondition lx name .ocarinaButtons args term)
  | "has_all_notes_for_song" => some (songCondition lx name args term)
  | "has_all_item_goals" => some (plainCondition lx name .allGoals args term)
  | "won" => some (plainCondition lx name .won args term)
  | "can_live_dmg" => some (damageCondition lx name args term)
  | "had_night_start" => some (plainCondition lx name (.const (startsAtNight lx)) args term)
  | "region_has_shortcuts" => some (shortcutCondition lx name args term)
  | "guarantee_hint" => some do
    checkArity lx name args 0 term
    match lx.templates.get? name with
    | some t => expand t [] term
    | none => throw (.unknownName lx.spot name term)
  | "item_count" | "heart_count" => some (nonzeroCondition lx term)
  | _ => none

/-- The formula of a call of a template. -/
def templateCall (func : String) (args : List Term) (term : Term) : Resolve Formula :=
  match lx.templates.get? func with
  | some t => expand t args term
  | none => throw (.unknownFunction lx.spot func term)

/-- The formula of a test of the time of day. -/
def dayCondition : DayTest → Resolve Formula
  | .day =>
    if lx.profile.timeMatters then return timeOrSong .atDay (← sunSong lx)
    else return .const true
  | .night =>
    if isNightToken lx then
      let args := [Term.name "Suns_Song"]
      templateCall lx expand "can_play" args (.call "can_play" args)
    else if lx.profile.timeMatters then return timeOrSong .atNight (← sunSong lx)
    else return .const true
  | .gravekeeper =>
    if lx.profile.timeMatters then return .time .atNight none else return .const true

/-- The formula of a name in the place of a condition. -/
def nameCondition (word : String) : Resolve Formula := do
  let term := Term.name word
  match DayTest.ofName? word with
  | some test => dayCondition lx expand test
  | none =>
    if isRuntimeName word then throw (.unsupported lx.spot (.notACondition word) term)
    match builtin? lx expand word [] term with
    | some f => f
    | none =>
      match lx.templates.get? word with
      | some t => expand t [] term
      | none =>
        let r ← get
        match r.catalog.lookup word with
        | some id => return .item id
        | none =>
          match lx.constant? word with
          | some v => return .const v.truthy
          | none => return .item (← itemNamed lx word term)

/-- The formula of a call. -/
def callCondition (func : String) (args : List Term) : Resolve Formula := do
  let term := Term.call func args
  match DayTest.ofName? func with
  | some test =>
    checkArity lx func args 0 term
    dayCondition lx expand test
  | none =>
    if func = "at" then
      let [region, body] := args
        | throw (.arity lx.spot func 2 args.length term)
      let .str region := region
        | throw (.invalidArgument lx.spot func .notARegion term)
      subruleCondition region body
    else if func = "here" then
      let body ← onlyArgument lx func args term
      match lx.anchor with
      | some anchor => subruleCondition anchor.region body
      | none => throw (.invalidArgument lx.spot func .noSpot term)
    else
      match builtin? lx expand func args term with
      | some f => f
      | none => templateCall lx expand func args term

mutual

/-- The formula of a term in the place of a condition. -/
def condition : Term → Resolve Formula
  | .bool b => return .const b
  | .int n => return .const (n != 0)
  | .str s => return .item (← itemOrEvent s)
  | .name word => nameCondition lx expand word
  | .tuple items => countCondition lx items (.tuple items)
  | .call func args => callCondition lx expand func args
  | .group op operands => return .group op (← conditions operands)
  | .not operand => return (← condition operand).negate
  | .compare left rest => comparison lx left rest
  | .decimal digits => constantCondition lx (.decimal digits)
  | .subscript table key => constantCondition lx (.subscript table key)
  | .arith op left right => constantCondition lx (.arith op left right)
  | .neg operand => constantCondition lx (.neg operand)

/-- The formulas of a list of terms. -/
def conditions : List Term → Resolve (List Formula)
  | [] => return []
  | t :: ts => do
    let f ← condition t
    return f :: (← conditions ts)

end

end

/-! ### Rules -/

/-- The formula of a term in which calls of templates are nested at most `depth` deep. -/
def conditionAt (lx : Lexicon) (depth : Nat) (term : Term) : Resolve Formula :=
  condition lx (fun t args call => do
    checkArity lx t.name args t.params.length call
    match depth with
    | 0 => throw (.recursionLimit lx.spot expansionLimit call)
    | depth + 1 => conditionAt lx depth (t.instantiate args)) term

/-- The formula of a rule. -/
def resolve (lx : Lexicon) (term : Term) : Resolve Formula := conditionAt lx expansionLimit term

end Progression.Rule

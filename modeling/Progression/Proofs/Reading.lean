import Progression.Proofs.Actions
import Progression.Proofs.Folding
import Progression.Rule.Compile

/-!
# What rules say

A rule can be read off its term as it stands, without a formula: a call of a template
says what the body says with the arguments put in, connectives and chains of comparisons
connect truth values, and a name means the first thing on the list of what names can mean
in its place.  Subrules are events, to be had like items.

Such a reading registers new events and subrules where it meets them, as resolving does,
so a name is looked up in the catalog as it stands there.

## Main definitions

* `Reading.firstOf` — the first meaning on a list.
* `Reading.item`, `Reading.operand`, `Reading.name` — what a name means in the place of an
  item, of a side of a comparison and of a condition.
* `Reading.condition` — the truth of a term, given how calls of templates are read.
* `Reading.rule` — the truth of a rule.
-/

namespace Progression.Rule.Reading

/-- The first meaning on a list that there is, or else `otherwise`. -/
def firstOf {α : Type} (meanings : List (Option α)) (otherwise : α) : α :=
  (meanings.findSome? id).getD otherwise

@[simp] theorem firstOf_nil {α : Type} (otherwise : α) : firstOf [] otherwise = otherwise := rfl

@[simp] theorem firstOf_some {α : Type} (a : α) (meanings : List (Option α)) (otherwise : α) :
    firstOf (some a :: meanings) otherwise = a := rfl

@[simp] theorem firstOf_none {α : Type} (meanings : List (Option α)) (otherwise : α) :
    firstOf (none :: meanings) otherwise = firstOf meanings otherwise := rfl

section

variable (lx : Lexicon)

/-! ### Items -/

/-- The event of a name, which may be new. -/
def event (name : String) : Resolve ItemId := modifyGet fun r => r.declareEvent name

/-- What a name means in the place of an item: an item of the catalog, or a new event. -/
def item (word : String) (term : Term) : Resolve ItemId := do
  let r ← get
  firstOf
    [(r.catalog.lookup word).map pure,
      if isEventName word then some (event (Name.unescape word)) else none]
    (throw (.unknownName lx.spot word term))

/-- What a quoted name means: an item of the catalog, or a new event. -/
def quotedItem (name : String) : Resolve ItemId := do
  let r ← get
  firstOf [(r.catalog.lookup name).map pure] (event name)

/-- The item that an argument means. -/
def itemArgument (func : String) (arg term : Term) : Resolve ItemId :=
  match arg with
  | .name word => item lx word term
  | .str s => quotedItem s
  | _ => throw (.invalidArgument lx.spot func .notAnItem term)

section

variable (cx : Situation)

/-! ### Counts -/

/-- Whether a count reaches a number; a number beyond all counts is reached by the
greatest count. -/
def reaches (n : Int) (count : Count) : Bool := decide (min n Count.greatest ≤ count.toNat)

/-- Whether a total reaches a number.  Nothing is added up for a number that is not positive,
and a total that is too great for a count reaches no other number. -/
def totalReaches (n : Int) (total : Option Count) : Bool := decide (n ≤ 0) || total.any (reaches n)

/-- The truth of an item and its count. -/
def countTest (id : ItemId) (count term : Term) : Resolve Bool :=
  match count with
  | .int n => return reaches n (cx.inventory.count id)
  | .name word =>
    match (lx.constant? word).bind Value.int? with
    | some n => return reaches n (cx.inventory.count id)
    | none => throw (.countTuple lx.spot .notAnIntegerSetting term)
  | _ => throw (.countTuple lx.spot .notANumber term)

/-- The truth of a pair of an item and a count. -/
def countPair (items : List Term) (term : Term) : Resolve Bool :=
  match items with
  | [item, count] => do
    let id ← match item with
      | .name word => Reading.item lx word term
      | .str s => quotedItem s
      | _ => throw (.countTuple lx.spot .notAnItem term)
    countTest lx cx id count term
  | _ => throw (.countTuple lx.spot .notAPair term)

/-! ### Comparisons -/

/-- What a side of the comparison `term` means.  A name means the age, a setting, an
attribute or the display name of an item. -/
def operand (side term : Term) : Resolve Scalar :=
  match side with
  | .name word => do
    let r ← get
    firstOf
      [if word = "age" then some (pure (Operand.age.value cx)) else none,
        (lx.profile.settings.get? word).map fun v => pure (.ofValue v),
        (lx.profile.attributes.get? word).map fun v => pure (.ofValue v),
        ((r.catalog.lookup word).bind r.catalog.get?).map fun e => pure (.str e.name)]
      (throw (.unknownName lx.spot word term))
  | .call "item_count" args => do
    let arg ← onlyArgument lx "item_count" args term
    let id ← itemArgument lx "item_count" arg term
    return .int (cx.inventory.count id).toNat
  | .call "heart_count" args => do
    checkArity lx "heart_count" args 0 term
    return .int cx.inventory.hearts.toNat
  | side => do
    match ← lx.literal? side with
    | some v => return .ofValue v
    | none => throw (.unsupported lx.spot .operandDue term)

/-- The truth of every comparison of a chain that goes on after the value `left`.  A
comparison that the values do not support is false. -/
def links (term : Term) (left : Scalar) : List (Comparator × Term) → Resolve (List Bool)
  | [] => return []
  | (op, t) :: rest => do
    let right ← operand lx cx t term
    return (op.holds? left right).getD false :: (← links term right rest)

/-- The truth of a chain of comparisons: all of them hold.  But two names that are not
constants are equal if they are the same name. -/
def comparison (left : Term) (rest : List (Comparator × Term)) : Resolve Bool :=
  let chain : Resolve Bool := do
    let l ← operand lx cx left (.compare left rest)
    return Connective.and.among (← links lx cx (.compare left rest) l rest)
  match left, rest with
  | .name l, [(.eq, .name r)] =>
    if isPlainName lx l && isPlainName lx r then return l == r else chain
  | .name l, [(.ne, .name r)] =>
    if isPlainName lx l && isPlainName lx r then return l != r else chain
  | _, _ => chain

/-- The truth of a term that is made of constants. -/
def constant (term : Term) : Resolve Bool := do
  match ← lx.literal? term with
  | some v => return v.truthy
  | none => throw (.unsupported lx.spot .conditionDue term)

/-! ### Subrules, songs and the time of day -/

/-- A subrule means having its event. -/
def subrule (region : String) (body : Term) : Resolve Bool := do
  let id ← modifyGet fun r => r.registerSubrule region (subruleBody body)
  return cx.inventory.has id 1

/-- Whether the buttons for a song are there. -/
def canPlay (catalog : Catalog) (song : String) : Bool :=
  if song = "Scarecrow Song" then totalReaches 2 cx.inventory.ocarinaButtons
  else
    (lx.profile.songs.find? song).all fun notes =>
      cx.inventory.hasAll (notes.toList.filterMap catalog.ocarinaButton?)

/-- Whether the song that turns day into night can be played. -/
def sunSong : Resolve Bool := do
  let term := Term.name "Suns_Song"
  let ocarina ← item lx "Ocarina" term
  let song ← item lx "Suns_Song" term
  let r ← get
  return cx.inventory.has ocarina 1 && cx.inventory.has song 1 &&
    canPlay lx cx r.catalog "Suns Song"

/-! ### Built-in tests -/

/-- The truth of `has`, with or without a count. -/
def has (args : List Term) (term : Term) : Resolve Bool :=
  match args with
  | [arg] => do
    let id ← itemArgument lx "has" arg term
    return cx.inventory.has id 1
  | [arg, count] => do
    let id ← itemArgument lx "has" arg term
    let n ← integerArgument lx "has" count term
    return reaches n (cx.inventory.count id)
  | _ => throw (.arity lx.spot "has" 2 args.length term)

/-- The truth of a connective of tests for items. -/
def items (name : String) (op : Connective) (args : List Term) (term : Term) : Resolve Bool := do
  if (listedItems args).isEmpty then throw (.invalidArgument lx.spot name .noItems term)
  let ids ← (listedItems args).mapM fun arg => itemArgument lx name arg term
  return op.among (ids.map fun id => cx.inventory.has id 1)

/-- The truth of a test that takes no argument. -/
def plain (name : String) (b : Bool) (args : List Term) (term : Term) : Resolve Bool := do
  checkArity lx name args 0 term
  return b

/-- The truth of a test of a number over a group of items. -/
def tally (name : String) (total : Option Count) (args : List Term) (term : Term) :
    Resolve Bool := do
  let arg ← onlyArgument lx name args term
  let n ← integerArgument lx name arg term
  return totalReaches n total

/-- The truth of the test for the notes of a song. -/
def song (name : String) (args : List Term) (term : Term) : Resolve Bool := do
  let arg ← onlyArgument lx name args term
  let song ← nameArgument lx name arg term
  let r ← get
  return canPlay lx cx r.catalog song

/-- The truth of surviving damage. -/
def damage (name : String) (args : List Term) (term : Term) : Resolve Bool := do
  let arg ← onlyArgument lx name args term
  let heavy ← heartsArgument lx name arg term
  let multiplier := (lx.profile.settings.str? "damage_multiplier").getD "normal"
  return multiplier != "ohko" && !(heavy && multiplier == "quadruple")

/-- The truth of a region's shortcuts. -/
def shortcuts (name : String) (args : List Term) (term : Term) : Resolve Bool := do
  let arg ← onlyArgument lx name args term
  let region ← nameArgument lx name arg term
  return lx.profile.shortcuts.contains region

/-- A count in the place of a condition is not zero. -/
def nonzero (term : Term) : Resolve Bool := do
  let n ← operand lx cx term term
  return (Comparator.gt.holds? n (.int 0)).getD false

end

/-! ### Conditions -/

/-- How the call `term` of a template with arguments is read. -/
abbrev Expansion := Template → List Term → Term → Resolve Bool

variable (answers : Query → Bool) (cx : Situation) (expand : Expansion)

/-- The built-in test of a name. -/
def builtin? (name : String) (args : List Term) (term : Term) : Option (Resolve Bool) :=
  let inv := cx.inventory
  match name with
  | "has" => some (has lx cx args term)
  | "has_any_of" => some (items lx cx name .or args term)
  | "has_all_of" => some (items lx cx name .and args term)
  | "has_bottle" => some (plain lx name inv.hasBottle args term)
  | "has_hearts" => some (tally lx name (some inv.hearts) args term)
  | "has_medallions" => some (tally lx name inv.medallions args term)
  | "has_stones" => some (tally lx name inv.stones args term)
  | "has_dungeon_rewards" => some (tally lx name inv.dungeonRewards args term)
  | "has_ocarina_buttons" => some (tally lx name inv.ocarinaButtons args term)
  | "has_all_notes_for_song" => some (song lx cx name args term)
  | "has_all_item_goals" => some (plain lx name inv.meetsAll args term)
  | "won" => some (plain lx name inv.won args term)
  | "can_live_dmg" => some (damage lx name args term)
  | "had_night_start" => some (plain lx name (startsAtNight lx) args term)
  | "region_has_shortcuts" => some (shortcuts lx name args term)
  | "guarantee_hint" => some do
    checkArity lx name args 0 term
    firstOf [(lx.templates.get? name).map fun t => expand t [] term]
      (throw (.unknownName lx.spot name term))
  | "item_count" | "heart_count" => some (nonzero lx cx term)
  | _ => none

/-- The truth of a call of a template. -/
def template (func : String) (args : List Term) (term : Term) : Resolve Bool :=
  firstOf [(lx.templates.get? func).map fun t => expand t args term]
    (throw (.unknownFunction lx.spot func term))

/-- Whether it is one of the times: at a time that is given, by that time; else if the
song can be played or the region of the spot can be reached at one of them. -/
def timed (times : TimeOfDay) (song : Bool) : Bool :=
  if cx.times.isNone then song || Formula.givenAt answers cx times else cx.times.meets times

/-- The truth of a test of the time of day. -/
def day : DayTest → Resolve Bool
  | .day =>
    if lx.profile.timeMatters then return timed answers cx .atDay (← sunSong lx cx)
    else return true
  | .night =>
    if isNightToken lx then
      let args := [Term.name "Suns_Song"]
      template lx expand "can_play" args (.call "can_play" args)
    else if lx.profile.timeMatters then return timed answers cx .atNight (← sunSong lx cx)
    else return true
  | .gravekeeper =>
    return if lx.profile.timeMatters then timed answers cx .atNight false else true

/-- What a name means in the place of a condition: a test of the time of day or a name
that is no condition, a built-in test, a template, an item of the catalog, a setting, an
attribute or a new event. -/
def name (word : String) : Resolve Bool := do
  let term := Term.name word
  let r ← get
  firstOf
    [(DayTest.ofName? word).map (day lx answers cx expand),
      if isRuntimeName word then some (throw (.unsupported lx.spot (.notACondition word) term))
      else none,
      builtin? lx cx expand word [] term,
      (lx.templates.get? word).map fun t => expand t [] term,
      (r.catalog.lookup word).map fun id => pure (cx.inventory.has id 1),
      (lx.profile.settings.get? word).map fun v => pure v.truthy,
      (lx.profile.attributes.get? word).map fun v => pure v.truthy,
      if isEventName word then some do return cx.inventory.has (← event (Name.unescape word)) 1
      else none]
    (throw (.unknownName lx.spot word term))

/-- The truth of a call. -/
def call (func : String) (args : List Term) : Resolve Bool :=
  let term := Term.call func args
  match DayTest.ofName? func with
  | some test => do
    checkArity lx func args 0 term
    day lx answers cx expand test
  | none =>
    if func = "at" then
      match args with
      | [.str region, body] => subrule cx region body
      | [_, _] => throw (.invalidArgument lx.spot func .notARegion term)
      | _ => throw (.arity lx.spot func 2 args.length term)
    else if func = "here" then do
      let body ← onlyArgument lx func args term
      match lx.anchor with
      | some anchor => subrule cx anchor.region body
      | none => throw (.invalidArgument lx.spot func .noSpot term)
    else (builtin? lx cx expand func args term).getD (template lx expand func args term)

mutual

/-- The truth of a term in the place of a condition. -/
def condition : Term → Resolve Bool
  | .bool b => return b
  | .int n => return n != 0
  | .str s => return cx.inventory.has (← quotedItem s) 1
  | .name word => name lx answers cx expand word
  | .tuple items => countPair lx cx items (.tuple items)
  | .call func args => call lx answers cx expand func args
  | .group op operands => return op.among (← conditions operands)
  | .not operand => return !(← condition operand)
  | .compare left rest => comparison lx cx left rest
  | .decimal digits => constant lx (.decimal digits)
  | .subscript table key => constant lx (.subscript table key)
  | .arith op left right => constant lx (.arith op left right)
  | .neg operand => constant lx (.neg operand)

/-- The truth values of a list of terms. -/
def conditions : List Term → Resolve (List Bool)
  | [] => return []
  | t :: ts => do
    let b ← condition t
    return b :: (← conditions ts)

end

end

/-- The truth of a term in which calls of templates are nested at most `depth` deep: a
call is read as the body with the arguments in it. -/
def conditionAt (lx : Lexicon) (answers : Query → Bool) (cx : Situation) (depth : Nat)
    (term : Term) : Resolve Bool :=
  condition lx answers cx (fun t args call => do
    checkArity lx t.name args t.params.length call
    match depth with
    | 0 => throw (.recursionLimit lx.spot expansionLimit call)
    | depth + 1 => conditionAt lx answers cx depth (t.instantiate args)) term

/-- The truth of a rule. -/
def rule (lx : Lexicon) (answers : Query → Bool) (cx : Situation) (term : Term) : Resolve Bool :=
  conditionAt lx answers cx expansionLimit term

end Progression.Rule.Reading

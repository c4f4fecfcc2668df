import Mathlib.Data.List.Nodup
import Progression.Proofs.Runs

/-!
# Searches stay in order

A search may be expanded, visit, collect, give items back, be asked and be rewound, in any
order.  Its queues never hold an exit twice: an exit is listed by its own region only and
once there, and its region is found once, so it is queued once.  And until the search is
rewound nothing is lost: what is reached stays reached, a time that is recorded stays
recorded, and a visit stays made.

## Main definitions

* `Multiworld.ExitsOnce` — no region lists an exit twice.
* `Tidy` — a frontier hangs together and its queue has no duplicates.
* `Progress.Orderly` — what holds of the queue and of the recorded times of an age.
* `Progress.Grows` — nothing that is found out is lost.
* `Rewindable.Onward` — what a rewindable search can come to without being rewound.

## Main results

* `Multiworld.Built.exitsOnce` — no region that is built lists an exit twice.
* `Tidy.expandFrom` — an expansion keeps a queue without duplicates.
* `Rewindable.Onward.grows` — nothing is lost on the way onward.
* `Rewindable.Reachable.orderly` — **every reachable search is in order, as is all that it
  can go back to, and only grows until it is rewound.**
-/

namespace Progression

open Rule

/-! ### Exits are listed once -/

namespace Multiworld

variable {m m' : Multiworld}

/-- No region lists an exit twice. -/
def ExitsOnce (m : Multiworld) : Prop := ∀ r, (m.region r).exits.Nodup

theorem exits_modifyRegion (m : Multiworld) (id : RegionId) {f : Region → Region}
    (hf : ∀ r, (f r).exits = r.exits) (r : RegionId) :
    ((m.modifyRegion id f).region r).exits = (m.region r).exits := by
  rw [region_modifyRegion]
  split
  · exact hf _
  · rfl

namespace ExitsOnce

theorem modifyRegion (h : m.ExitsOnce) (id : RegionId) {f : Region → Region}
    (hf : ∀ r, (f r).exits = r.exits) : (m.modifyRegion id f).ExitsOnce := by
  intro r
  rw [exits_modifyRegion m id hf]
  exact h r

theorem pushRegion (h : m.ExitsOnce) (w : WorldId) (name : String) (provides : TimeOfDay) :
    (m.pushRegion w name provides).2.ExitsOnce := by
  intro r
  by_cases hr : r.index = m.regions.size
  · have hself : r = ⟨m.regions.size⟩ := congrArg RegionId.mk hr
    rw [hself, region_pushRegion_self]
    exact .nil
  · rw [region_pushRegion_of_ne m w name provides hr]
    exact h r

theorem addRegion (h : m.ExitsOnce) (w : WorldId) (name : String) (provides : TimeOfDay) :
    (m.addRegion w name provides).2.ExitsOnce := by
  unfold Multiworld.addRegion
  split
  · exact h.modifyRegion _ fun _ => rfl
  · exact h.pushRegion w name provides

/-- An exit that is added is not listed before. -/
theorem addExit (h : m.ExitsOnce) (hm : m.WellFormed) (parent : RegionId)
    (name target text : String) : (m.addExit parent name target text).2.ExitsOnce := by
  intro r
  let e : Exit := ⟨name, (m.region parent).world, parent, target, none, .always, text⟩
  have hregion : (m.addExit parent name target text).2.region r =
      if parent = r ∧ r.index < m.regions.size then
        { m.region r with exits := (m.region r).exits ++ [⟨m.exits.size⟩] }
      else m.region r := region_modifyRegion { m with exits := m.exits.push e } parent r _
  rw [hregion]
  split
  · have hfresh : ⟨m.exits.size⟩ ∉ (m.region r).exits := by
      intro hid
      exact Nat.lt_irrefl _ (hm.exit_listed r _ hid).1
    have hexits := (h r).concat hfresh
    rwa [List.concat_eq_append] at hexits
  · exact h r

theorem pushLocation (h : m.ExitsOnce) (l : Location) : (m.pushLocation l).2.ExitsOnce := by
  have hpush : ExitsOnce { m with locations := m.locations.push l } := h
  exact hpush.modifyRegion l.parent fun _ => rfl

theorem keeps_connectExit (id : ExitId) :
    Keeps ExitsOnce (fun _ => True) (connectExit id) := by
  refine .bind .get fun m hm => ?_
  dsimp only
  split
  · exact .throw _
  · next target _ =>
    have hconnect : (m.modifyExit id fun e => { e with connected := some target }).ExitsOnce := hm
    exact .set (hconnect.modifyRegion target fun _ => rfl)

section Compiling

variable {templates : Templates}

theorem keeps_compileAt (w : WorldId) (anchor : Anchor) (action : Lexicon → Resolve Formula) :
    Keeps ExitsOnce (fun _ => True) (compileAt templates w anchor action) := by
  refine .bind .get fun m hm => ?_
  exact .bind (.set hm) fun _ _ => .lift _

theorem keeps_compileExit (id : ExitId) :
    Keeps ExitsOnce (fun _ => True) (compileExit templates id) := by
  refine .bind .get fun m _ => ?_
  refine .bind (keeps_compileAt _ _ _) fun guard _ => ?_
  exact .modifyGet fun m hm => ⟨hm, trivial⟩

theorem keeps_compileLocation (id : LocationId) :
    Keeps ExitsOnce (fun _ => True) (compileLocation templates id) := by
  refine .bind .get fun m _ => ?_
  refine .bind (keeps_compileAt _ _ _) fun guard _ => ?_
  exact .modifyGet fun m hm => ⟨hm, trivial⟩

theorem keeps_takePending (w : WorldId) : Keeps ExitsOnce (fun _ => True) (takePending w) := by
  refine .bind .get fun m _ => ?_
  exact .bind (Q := fun _ => True) (.modifyGet fun m hm => ⟨hm, trivial⟩) fun _ _ =>
    .pure trivial

theorem keeps_settle (w : WorldId) (s : Subrule) :
    Keeps ExitsOnce (fun _ => True) (settle templates w s) := by
  refine .bind .get fun m _ => ?_
  split
  · exact .throw _
  · refine .bind (keeps_compileAt _ _ _) fun guard _ => ?_
    split
    · exact .pure trivial
    · exact .modifyGet fun m hm => ⟨hm.pushLocation _, trivial⟩

theorem keptByCompiling : KeptByCompiling ExitsOnce :=
  ⟨keeps_connectExit, fun _ => keeps_compileExit, fun _ => keeps_compileLocation⟩

theorem keptBySettling : KeptBySettling ExitsOnce :=
  ⟨keeps_takePending, fun _ => keeps_settle⟩

end Compiling

end ExitsOnce

/-- **No region that is built lists an exit twice.** -/
theorem Built.exitsOnce (h : m.Built) : m.ExitsOnce := by
  induction h with
  | empty c => exact fun _ => .nil
  | addWorld profile _ ih => exact ih.pushRegion _ "Root" .none
  | addRegion _ name provides _ ih => exact ih.addRegion _ name provides
  | addExit _ name target text h ih => exact ih.addExit h.wellFormed _ name target text
  | addLocation _ name kind text _ ih => exact ih.pushLocation _
  | addEvent _ name text _ ih => exact ih.pushLocation _
  | placeItem _ _ _ _ ih => exact ih
  | skip _ _ ih => exact ih
  | declareItem _ _ ih => exact ih
  | compileRules templates rounds _ ih =>
    exact ((keeps_compileRules ExitsOnce.keptByCompiling ExitsOnce.keptBySettling
      rounds).run _ ih).1
  | finishRules templates rounds _ ih =>
    exact ((ExitsOnce.keptBySettling.finishRules rounds).run _ ih).1

end Multiworld

/-! ### Queues without duplicates -/

/-- A frontier hangs together, and its queue holds no exit twice. -/
structure Tidy (g : Multiworld) (queue : List ExitId) (m : Reached) : Prop
    extends Explored g queue m where
  nodup : queue.Nodup

namespace Tidy

variable {g : Multiworld} {invs : Array Inventory} {age : Age} {queue queue' : List ExitId}
  {m m' : Reached}

theorem of_perm (h : Tidy g queue m) (hq : queue'.Perm queue) : Tidy g queue' m :=
  ⟨h.toExplored.of_mem_iff fun _ => hq.mem_iff, hq.nodup_iff.2 h.nodup⟩

theorem remembers (h : Tidy g queue m) (hm : Remembers m m') : Tidy g queue m' :=
  ⟨h.toExplored.remembers hm, h.nodup⟩

theorem drop {id : ExitId} (h : Tidy g (id :: queue) m)
    (hid : ∀ target, (g.exit id).connected = some target → m.contains target = true) :
    Tidy g queue m :=
  ⟨h.toExplored.drop hid, (List.nodup_cons.1 h.nodup).2⟩

/-- The exits of a new region are not queued yet. -/
theorem discover (hg : g.Built) {id : ExitId} {target : RegionId} (h : Tidy g (id :: queue) m)
    (hc : (g.exit id).connected = some target) (hn : m.contains target = false) :
    Tidy g ((g.region target).exits ++ queue) (m.discover g (g.exit id).world target) := by
  refine ⟨h.toExplored.discover hg.wellFormed hc hn, ?_⟩
  refine (hg.exitsOnce target).append (List.nodup_cons.1 h.nodup).2 fun e he hq => ?_
  obtain ⟨r, hr, hlisted⟩ := h.listed e (List.mem_cons_of_mem _ hq)
  -- an exit is listed by its own region only
  have hparent : r = target := by
    rw [← (hg.wellFormed.exit_listed r e hlisted).2.1,
      (hg.wellFormed.exit_listed target e he).2.1]
  rw [hparent, hn] at hr
  cases hr

/-- **An expansion keeps a frontier tidy.** -/
theorem expandFrom (hg : g.Built) (queue failed : List ExitId) (m : Reached)
    (h : Tidy g (queue ++ failed) m) :
    Tidy g (expandFrom g invs age queue failed m).queue
      (expandFrom g invs age queue failed m).reached := by
  fun_induction Progression.expandFrom g invs age queue failed m with
  | case1 => exact h
  | case2 failed m id queue hc ih =>
    exact ih (h.drop fun _ hc' => by rw [hc] at hc'; cases hc')
  | case3 failed m id queue target hc hcon ih =>
    refine ih (h.drop fun target' hc' => ?_)
    rw [hc, Option.some_inj] at hc'
    rwa [← hc']
  | case4 failed m id queue target _ _ m' he ih =>
    refine ih ((h.remembers (remembers_of_evaluate he)).of_perm ?_)
    rw [← List.append_assoc]
    exact List.perm_append_singleton id _
  | case5 failed m id queue target hc hn m' he region w _ ih =>
    have h : Tidy g (id :: (queue ++ failed)) m := h
    have hremembers := remembers_of_evaluate he
    have hn' := (hremembers.contains target).trans (Bool.eq_false_iff.2 hn)
    refine ih (((h.remembers hremembers).discover hg hc hn').of_perm ?_)
    rw [← List.append_assoc]
    exact List.perm_append_comm.append_right failed
  | case6 failed m id queue target hc hn m' he region w _ ih =>
    have h : Tidy g (id :: (queue ++ failed)) m := h
    have hremembers := remembers_of_evaluate he
    have hn' := (hremembers.contains target).trans (Bool.eq_false_iff.2 hn)
    refine ih (((h.remembers hremembers).discover hg hc hn').of_perm ?_)
    rw [List.append_nil]
    exact List.perm_append_comm

/-- No two roots list the same exit. -/
theorem rootFrontier (hg : g.Built) :
    Tidy g (Search.rootFrontier g).queue (Search.rootFrontier g).reached := by
  refine ⟨Search.explored_rootFrontier hg.wellFormed, ?_⟩
  have hworlds : g.worldIds.Nodup :=
    List.nodup_range.map fun _ _ h => congrArg WorldId.index h
  have hroots : (g.worldIds.map g.root).Nodup := by
    refine hworlds.map_on fun v hv w hw h => ?_
    rw [← hg.wellFormed.root_world v (Multiworld.mem_worldIds.1 hv), h,
      hg.wellFormed.root_world w (Multiworld.mem_worldIds.1 hw)]
  refine List.nodup_flatMap.2 ⟨fun r _ => hg.exitsOnce r, hroots.imp fun {r r'} hne e he he' => ?_⟩
  refine hne ?_
  rw [← (hg.wellFormed.exit_listed r e he).2.1, (hg.wellFormed.exit_listed r' e he').2.1]

theorem frontierInvariant (hg : g.Built) (age : Age) :
    Search.FrontierInvariant g age fun f => Tidy g f.queue f.reached where
  expand invs f h := by
    refine Tidy.expandFrom hg f.queue [] f.reached ?_
    rwa [List.append_nil]
  remembers h hm := h.remembers hm

end Tidy

/-! ### What is in order -/

/-- Every time of a set is in another one just when all that meets it meets that one. -/
theorem TimeOfDay.contains_iff {s t : TimeOfDay} :
    s.contains t = true ↔ ∀ u, t.meets u = true → s.meets u = true := by
  constructor
  · intro h u
    revert h
    rcases s with ⟨_ | _, _ | _⟩ <;> rcases t with ⟨_ | _, _ | _⟩ <;>
      rcases u with ⟨_ | _, _ | _⟩ <;> decide
  · intro h
    have hday := h atDay
    have hnight := h atNight
    revert hday hnight
    rcases s with ⟨_ | _, _ | _⟩ <;> rcases t with ⟨_ | _, _ | _⟩ <;> decide

/-- A region is recorded with at least the times that it is known to have. -/
theorem Reached.exists_times {m : Reached} {r : RegionId} (hr : m.contains r = true) :
    ∃ known, m.times? r = some known ∧ ∀ t : TimeOfDay,
      (∀ u, t.meets u = true → m.hasTime u r = true) → known.contains t = true := by
  obtain ⟨known, hknown⟩ := Option.isSome_iff_exists.1 hr
  refine ⟨known, hknown, fun t ht => TimeOfDay.contains_iff.2 fun u hu => ?_⟩
  have hmeets := ht u hu
  rwa [Reached.hasTime, hknown] at hmeets

namespace Progress

/-- What holds of the queue of an age and of the times that it has recorded. -/
structure Orderly (g : Multiworld) (p : Progress) (age : Age) : Prop where
  nodup : (p.frontier age).queue.Nodup
  /-- An exit that is queued is one of a reached region. -/
  listed : ∀ id ∈ (p.frontier age).queue,
    ∃ r, (p.reached age).contains r = true ∧ id ∈ (g.region r).exits
  /-- An exit of a reached region that leads to one that is not reached is queued. -/
  queued : ∀ r, (p.reached age).contains r = true → ∀ id ∈ (g.region r).exits, ∀ target,
    (g.exit id).connected = some target → (p.reached age).contains target = false →
      id ∈ (p.frontier age).queue
  /-- A reached region that is no root is recorded with the times that it provides. -/
  provided : ∀ r, (p.reached age).contains r = true → ¬ g.IsRoot r →
    ∃ known, (p.reached age).times? r = some known ∧
      known.contains (g.region r).provides = true
  /-- A root is reached, and recorded with what the other reached regions of its world
  provide. -/
  roots : ∀ w : WorldId, w.index < g.worlds.size →
    ∃ known, (p.reached age).times? (g.root w) = some known ∧
      ∀ r, (p.reached age).contains r = true → ¬ g.IsRoot r → (g.region r).world = w →
        known.contains (g.region r).provides = true

end Progress

theorem Progress.orderly_of_tidy {g : Multiworld} {p : Progress} {age : Age}
    (h : Tidy g (p.frontier age).queue (p.frontier age).reached) : p.Orderly g age := by
  constructor
  case nodup => exact h.nodup
  case listed => exact h.listed
  case queued => exact h.queued
  case provided =>
    intro r hr hnr
    obtain ⟨known, hknown, hcontains⟩ := Reached.exists_times hr
    exact ⟨known, hknown, hcontains _ (h.provided r hr hnr)⟩
  case roots =>
    intro w hw
    obtain ⟨known, hknown, hcontains⟩ := Reached.exists_times (h.roots w hw)
    refine ⟨known, hknown, fun r hr hnr hworld => hcontains _ ?_⟩
    rw [← hworld]
    exact h.rootProvided r hr hnr

/-! ### What grows -/

/-- The regions and times of a frontier are among those of another one. -/
structure Reached.Grows (m m' : Reached) : Prop where
  contains : ∀ r, m.contains r = true → m'.contains r = true
  hasTime : ∀ t r, m.hasTime t r = true → m'.hasTime t r = true

namespace Reached.Grows

variable {g : Multiworld} {invs : Array Inventory} {age : Age} {m m' m'' : Reached}

theorem refl (m : Reached) : m.Grows m := ⟨fun _ h => h, fun _ _ h => h⟩

theorem trans (h : m.Grows m') (h' : m'.Grows m'') : m.Grows m'' :=
  ⟨fun r hr => h'.contains r (h.contains r hr), fun t r ht => h'.hasTime t r (h.hasTime t r ht)⟩

theorem of_remembers (h : Remembers m m') : m.Grows m' :=
  ⟨fun r hr => (h.contains r).trans hr, h.kept⟩

/-- A region that is discovered was not reached, so no time that is recorded is lost. -/
theorem discover {target : RegionId} (w : WorldId) (hn : m.contains target = false) :
    m.Grows (m.discover g w target) where
  contains r hr := by
    rw [contains_discover, hr, Bool.or_true, Bool.or_true]
  hasTime t r ht := by
    have hne : target ≠ r := by
      rintro rfl
      rw [contains_of_hasTime ht] at hn
      cases hn
    rw [hasTime_discover, if_neg hne, ht]
    rfl

/-- An expansion loses nothing. -/
theorem expandFrom (queue failed : List ExitId) (m : Reached) :
    m.Grows (expandFrom g invs age queue failed m).reached := by
  have found : ∀ {m m' : Reached} {id : ExitId} {target : RegionId},
      ¬ m.contains target = true →
      evaluate g invs age .none (g.exit id).post m = (true, m') →
      m.Grows (m'.discover g (g.exit id).world target) := by
    intro m m' id target hn he
    have hremembers := remembers_of_evaluate he
    exact (of_remembers hremembers).trans
      (discover _ ((hremembers.contains target).trans (Bool.eq_false_iff.2 hn)))
  fun_induction Progression.expandFrom g invs age queue failed m with
  | case1 failed m => exact .refl m
  | case2 _ _ _ _ _ ih => exact ih
  | case3 _ _ _ _ _ _ _ ih => exact ih
  | case4 _ _ _ _ _ _ _ m' he ih => exact (of_remembers (remembers_of_evaluate he)).trans ih
  | case5 _ _ _ _ _ _ hn m' he _ _ _ ih => exact (found hn he).trans ih
  | case6 _ _ _ _ _ _ hn m' he _ _ _ ih => exact (found hn he).trans ih

end Reached.Grows

/-- What is found out in one progress is found out in another one. -/
structure Progress.Grows (p q : Progress) : Prop where
  reached : ∀ age, (p.reached age).Grows (q.reached age)
  visited : ∀ l ∈ p.visited, l ∈ q.visited

theorem Progress.Grows.refl (p : Progress) : p.Grows p := ⟨fun _ => .refl _, fun _ h => h⟩

theorem Progress.Grows.trans {p q r : Progress} (h : p.Grows q) (h' : q.Grows r) : p.Grows r :=
  ⟨fun age => (h.reached age).trans (h'.reached age), fun l hl => h'.visited l (h.visited l hl)⟩

namespace Search

variable {g : Multiworld} {s t : Search}

theorem grows_frontierInvariant (g : Multiworld) (age : Age) (m : Reached) :
    FrontierInvariant g age fun f => m.Grows f.reached where
  expand _ _ h := h.trans (.expandFrom _ [] _)
  remembers h hm := h.trans (.of_remembers hm)

/-- What a further visit keeps of the list of visits, a run keeps. -/
theorem Run.visited_keeps {P : List LocationId → Prop}
    (hP : ∀ id ids, id ∉ ids → P ids → P (id :: ids)) (h : Run g s t)
    (hs : P s.progress.visited) : P t.progress.visited := by
  induction h with
  | refl => exact hs
  | nextSphere _ ih => rwa [visited_nextSphere]
  | evaluate age times p _ ih => rwa [Search.evaluate, visited_ask]
  | reachableAt age region times _ ih => rwa [Search.reachableAt, visited_ask]
  | collect item _ ih => rwa [progress_collect]
  | uncollect item _ ih => rwa [Search.uncollect, progress_withItem]
  | visit id _ ih =>
    rw [Search.visit, Progress.visit]
    split
    · exact ih
    · next hid => exact hP id _ hid ih

/-- A run takes no visit back. -/
theorem Run.visited_suffix (h : Run g s t) : s.progress.visited <:+ t.progress.visited :=
  h.visited_keeps (fun id _ _ hs => hs.trans (List.suffix_cons id _)) List.suffix_rfl

/-- No location is visited twice. -/
theorem Run.visited_nodup (h : Run g s t) (hs : s.progress.visited.Nodup) :
    t.progress.visited.Nodup :=
  h.visited_keeps (fun _ _ hid hids => List.nodup_cons.2 ⟨hid, hids⟩) hs

theorem Run.grows (h : Run g s t) : s.progress.Grows t.progress where
  reached age := h.keeps (grows_frontierInvariant g age _) (.refl _)
  visited _ hl := h.visited_suffix.subset hl

end Search

/-! ### Onward -/

namespace Rewindable

variable {g : Multiworld} {r r' : Rewindable}

/-- What a rewindable search can come to while it is not rewound: its search runs, its
progress is noted, and the notes are dropped. -/
inductive Onward (g : Multiworld) (r : Rewindable) : Rewindable → Prop where
  | refl : Onward g r r
  | run {t : Rewindable} {s : Search} (h : Onward g r t) (hs : t.live.Run g s) :
    Onward g r { t with live := s }
  | drop {t : Rewindable} (h : Onward g r t) : Onward g r (.of t.live)
  | checkpoint {t : Rewindable} (h : Onward g r t) : Onward g r t.checkpoint

/-- **Nothing is lost on the way onward.** -/
theorem Onward.grows (h : Onward g r r') : r.live.progress.Grows r'.live.progress := by
  induction h with
  | refl => exact .refl _
  | run _ hs ih => exact ih.trans hs.grows
  | drop _ ih => exact ih
  | checkpoint _ ih => exact ih

/-- **Every reachable search is in order**, as is all that it can go back to, and only grows
until it is rewound. -/
theorem Reachable.orderly (hg : g.Built) (hr : r.Reachable g) :
    (∀ age, r.live.progress.Orderly g age) ∧
      (∀ p ∈ r.history, ∀ age, p.Orderly g age) ∧
      ∀ {r'}, r.Onward g r' → r.live.progress.Grows r'.live.progress := by
  have hkept := fun age => hr.keeps (Tidy.frontierInvariant hg age) (.rootFrontier hg)
  refine ⟨fun age => ?_, fun p hp age => ?_, fun h => h.grows⟩
  · exact Progress.orderly_of_tidy (hkept age).1
  · exact Progress.orderly_of_tidy ((hkept age).2 p hp)

/-- A world with two chests in a hall where it is day. -/
def hallWorld : Multiworld :=
  let start := (Multiworld.empty .empty).addWorld { Profile.plain with timeMatters := true }
  let hall := start.2.addRegion start.1 "Hall" .atDay
  let m := (hall.2.addExit (start.2.root start.1) "Root -> Hall" "Hall" "True").2
  let m := (m.addLocation hall.1 "Left Chest" "Chest" "True").2
  let m := (m.addLocation hall.1 "Right Chest" "Chest" "True").2
  (Action.result (compileRules .empty 1) m).2

theorem built_hallWorld : hallWorld.Built :=
  .compileRules .empty 1 <|
    .addLocation (by decide) _ _ _ <| .addLocation (by decide) _ _ _ <|
    .addExit (by decide) _ _ _ <| .addRegion (by decide) _ _ <|
    .addWorld _ (.empty _)

/-- A search that has taken back its only visit is in order, and expanding it loses
nothing. -/
theorem orderly_hallWorld : ∃ s, Search.start hallWorld hallWorld.initialInventories = .ok s ∧
    ∃ r, unvisit { (of s).checkpoint with live := s.visit ⟨0⟩ } ⟨0⟩ = .ok r ∧
      (∀ age, r.live.progress.Orderly hallWorld age) ∧
      (∀ p ∈ r.history, ∀ age, p.Orderly hallWorld age) ∧
      r.live.progress.Grows (r.live.nextSphere hallWorld).progress := by
  obtain ⟨s, hs⟩ := Search.exists_start_initial hallWorld
  have hvisited : (s.visit ⟨0⟩).visited ⟨0⟩ = true :=
    decide_eq_true (Search.mem_visited_visit.2 (.inl rfl))
  have hr : Reachable hallWorld { (of s).checkpoint with live := s.visit ⟨0⟩ } :=
    .run (.checkpoint (.start hs)) (.visit ⟨0⟩ .refl)
  refine ⟨s, hs, _, if_pos hvisited, ?_⟩
  obtain ⟨hlive, hhistory, hgrows⟩ := Reachable.orderly built_hallWorld
    (hr.unvisit (if_pos hvisited))
  exact ⟨hlive, hhistory, hgrows (.run .refl (.nextSphere .refl))⟩

end Rewindable

end Progression

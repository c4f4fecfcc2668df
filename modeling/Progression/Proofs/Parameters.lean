import Mathlib.Data.List.Nodup
import Progression.Rule.Template

/-!
# The names of parameters

What a parameter is called makes no difference to what a template stands for.  A call puts its
arguments in place of the parameters all at once, so that an argument may mention what it likes,
the template's own parameters too, and the order of the parameters does not matter.  If they get
other names, which the body does not use for anything else, every place of a parameter is taken
by the same argument as before.

There is one exception.  A table that is subscripted is no term but a word, so an argument can
take its place only if it is a name.  Any other argument leaves the word of the parameter behind,
which is then looked up like the name of any table.

## Main definitions

* `Mention`, `Term.mentions` — the places where a term names something.
* `Term.rename`, `Template.rename` — other names for what a term mentions, and for parameters.
* `Mention.filled` — what a call puts in a place.

## Main results

* `Term.rename_substitute_eq_iff` — terms come out alike just when all their places do.
* `Template.argument_iff` — a parameter is bound to the argument that stands in its position.
* `Template.instantiate_rename_iff` — **other names for the parameters make no difference** just
  when no parameter that gets another name is subscripted with an argument that is no name.
-/

namespace Progression.Rule

/-! ### What a term mentions -/

/-- A place of a term where a word names something: an operand, or the table of a subscript. -/
inductive Mention where
  | name (word : String)
  | table (word : String)
  deriving DecidableEq

namespace Mention

/-- The word that is mentioned. -/
def word : Mention → String
  | .name word => word
  | .table word => word

/-- Another word in the same place. -/
def rename (ρ : String → String) : Mention → Mention
  | .name word => .name (ρ word)
  | .table word => .table (ρ word)

/-- What stands in a place once terms are put in place of names. -/
def filled (f : String → Option Term) : Mention → Term
  | .name word => (f word).getD (.name word)
  | .table word => .name (Term.substituteTable f word)

end Mention

namespace Term

mutual

/-- The places where a term names something, from left to right.  Called functions are not among
them. -/
def mentions : Term → List Mention
  | .name word => [.name word]
  | .str _ | .int _ | .decimal _ | .bool _ => []
  | .tuple items => mentionsList items
  | .call _ args => mentionsList args
  | .subscript table key => .table table :: mentions key
  | .group _ operands => mentionsList operands
  | .not operand => mentions operand
  | .compare left rest => mentions left ++ mentionsChain rest
  | .arith _ left right => mentions left ++ mentions right
  | .neg operand => mentions operand

/-- The places in a list of terms. -/
def mentionsList : List Term → List Mention
  | [] => []
  | t :: ts => mentions t ++ mentionsList ts

/-- The places in a chain of comparisons. -/
def mentionsChain : List (Comparator × Term) → List Mention
  | [] => []
  | (_, t) :: rest => mentions t ++ mentionsChain rest

end

mutual

/-- Give other names to all that a term mentions. -/
def rename (ρ : String → String) : Term → Term
  | .name word => .name (ρ word)
  | .str s => .str s
  | .int n => .int n
  | .decimal digits => .decimal digits
  | .bool b => .bool b
  | .tuple items => .tuple (renameList ρ items)
  | .call func args => .call func (renameList ρ args)
  | .subscript table key => .subscript (ρ table) (rename ρ key)
  | .group op operands => .group op (renameList ρ operands)
  | .not operand => .not (rename ρ operand)
  | .compare left rest => .compare (rename ρ left) (renameChain ρ rest)
  | .arith op left right => .arith op (rename ρ left) (rename ρ right)
  | .neg operand => .neg (rename ρ operand)

/-- Other names in every term of a list. -/
def renameList (ρ : String → String) : List Term → List Term
  | [] => []
  | t :: ts => rename ρ t :: renameList ρ ts

/-- Other names in every operand of a chain of comparisons. -/
def renameChain (ρ : String → String) : List (Comparator × Term) → List (Comparator × Term)
  | [] => []
  | (op, t) :: rest => (op, rename ρ t) :: renameChain ρ rest

end

variable {f g : String → Option Term} {ρ : String → String}

theorem mentionsList_eq_flatMap (ts : List Term) : mentionsList ts = ts.flatMap mentions := by
  induction ts with
  | nil => rfl
  | cons t ts ih => rw [mentionsList, ih, List.flatMap_cons]

theorem mentionsChain_eq_flatMap (rs : List (Comparator × Term)) :
    mentionsChain rs = rs.flatMap fun r => mentions r.2 := by
  induction rs with
  | nil => rfl
  | cons r rs ih => rw [mentionsChain, ih, List.flatMap_cons]

theorem renameList_eq_map (ts : List Term) : renameList ρ ts = ts.map (rename ρ) := by
  induction ts with
  | nil => rfl
  | cons t ts ih => rw [renameList, ih, List.map_cons]

theorem renameChain_eq_map (rs : List (Comparator × Term)) :
    renameChain ρ rs = rs.map fun r => (r.1, rename ρ r.2) := by
  induction rs with
  | nil => rfl
  | cons r rs ih => rw [renameChain, ih, List.map_cons]

theorem substituteList_eq_map (ts : List Term) : substituteList f ts = ts.map (substitute f) := by
  induction ts with
  | nil => rfl
  | cons t ts ih => rw [substituteList, ih, List.map_cons]

theorem substituteChain_eq_map (rs : List (Comparator × Term)) :
    substituteChain f rs = rs.map fun r => (r.1, substitute f r.2) := by
  induction rs with
  | nil => rfl
  | cons r rs ih => rw [substituteChain, ih, List.map_cons]

/-- Terms come out alike just when all their places do. -/
theorem rename_substitute_eq_iff (t : Term) :
    (t.rename ρ).substitute f = t.substitute g ↔
      ∀ m ∈ t.mentions, (m.rename ρ).filled f = m.filled g := by
  -- the same for lists, once it is known for their members
  have hlist : ∀ ts : List Term, (∀ t ∈ ts, (t.rename ρ).substitute f = t.substitute g ↔
      ∀ m ∈ t.mentions, (m.rename ρ).filled f = m.filled g) →
      (substituteList f (renameList ρ ts) = substituteList g ts ↔
        ∀ m ∈ mentionsList ts, (m.rename ρ).filled f = m.filled g) := by
    intro ts ih
    rw [substituteList_eq_map, renameList_eq_map, substituteList_eq_map, List.map_map,
      List.map_inj_left, mentionsList_eq_flatMap, List.forall_mem_flatMap]
    exact forall₂_congr ih
  induction t using Term.induction with
  | name word => simp [rename, substitute, mentions, Mention.rename, Mention.filled]
  | str | int | decimal | bool => simp [rename, substitute, mentions]
  | tuple ts ih => rw [rename, substitute, substitute, mentions, tuple.injEq, hlist ts ih]
  | call func ts ih =>
    rw [rename, substitute, substitute, mentions, call.injEq, eq_self, true_and, hlist ts ih]
  | subscript table key ih =>
    simp [rename, substitute, mentions, ih, Mention.rename, Mention.filled]
  | group op ts ih =>
    rw [rename, substitute, substitute, mentions, group.injEq, eq_self, true_and, hlist ts ih]
  | not t ih => simp only [rename, substitute, mentions, not.injEq, ih]
  | compare left rest ih ihs =>
    have hchain : substituteChain f (renameChain ρ rest) = substituteChain g rest ↔
        ∀ m ∈ mentionsChain rest, (m.rename ρ).filled f = m.filled g := by
      rw [substituteChain_eq_map, renameChain_eq_map, substituteChain_eq_map, List.map_map,
        List.map_inj_left, mentionsChain_eq_flatMap, List.forall_mem_flatMap]
      exact forall₂_congr fun r hr => by simpa using ihs r hr
    rw [rename, substitute, substitute, mentions, compare.injEq, hchain, List.forall_mem_append]
    exact and_congr_left' ih
  | arith op left right ihl ihr =>
    simp [rename, substitute, mentions, ihl, ihr, or_imp, forall_and]
  | neg t ih => simp only [rename, substitute, mentions, neg.injEq, ih]

/-- What is mentioned in a place once terms are put in place of names. -/
def namedIn (f : String → Option Term) : Mention → List Mention
  | .name word => ((f word).getD (.name word)).mentions
  | .table word => [.table (substituteTable f word)]

/-- A term with others in place of its names mentions what these mention, and no more: they are
not looked through again. -/
theorem mentions_substitute (t : Term) :
    (t.substitute f).mentions = t.mentions.flatMap (namedIn f) := by
  have hlist : ∀ ts : List Term,
      (∀ t ∈ ts, (t.substitute f).mentions = t.mentions.flatMap (namedIn f)) →
        mentionsList (substituteList f ts) = (mentionsList ts).flatMap (namedIn f) := by
    intro ts ih
    rw [mentionsList_eq_flatMap, mentionsList_eq_flatMap, substituteList_eq_map, List.flatMap_map,
      List.flatMap_assoc]
    exact List.flatMap_congr ih
  induction t using Term.induction with
  | name word => rw [substitute, mentions, List.flatMap_singleton, namedIn]
  | str | int | decimal | bool => rfl
  | tuple ts ih => exact hlist ts ih
  | call func ts ih => exact hlist ts ih
  | subscript table key ih => simp [substitute, mentions, ih, namedIn]
  | group op ts ih => exact hlist ts ih
  | not t ih => simpa only [substitute, mentions] using ih
  | compare left rest ih ihs =>
    have hchain : mentionsChain (substituteChain f rest) =
        (mentionsChain rest).flatMap (namedIn f) := by
      rw [mentionsChain_eq_flatMap, mentionsChain_eq_flatMap, substituteChain_eq_map,
        List.flatMap_map, List.flatMap_assoc]
      exact List.flatMap_congr ihs
    simp only [substitute, mentions, List.flatMap_append, ih, hchain]
  | arith op left right ihl ihr => simp only [substitute, mentions, List.flatMap_append, ihl, ihr]
  | neg t ih => simpa only [substitute, mentions] using ih

end Term

namespace Template

/-! ### Arguments -/

theorem lookup_eq_some_iff_mem {l : List (String × Term)} (h : (l.map Prod.fst).Nodup)
    {word : String} {arg : Term} : l.lookup word = some arg ↔ (word, arg) ∈ l := by
  induction l with
  | nil => simp
  | cons e l ih =>
    obtain ⟨key, value⟩ := e
    obtain ⟨hnew, hrest⟩ := List.nodup_cons.1 h
    rw [List.lookup_cons, List.mem_cons, Prod.mk.injEq]
    split
    · next hkey =>
      obtain rfl := beq_iff_eq.1 hkey
      have hout : (word, arg) ∉ l := fun hmem => hnew (List.mem_map.2 ⟨_, hmem, rfl⟩)
      simp [hout, eq_comm]
    · next hkey => simp [ih hrest, beq_eq_false_iff_ne.1 hkey]

variable {params : List String} {args : List Term} {word : String} {arg : Term}

theorem keys_zip (hargs : args.length = params.length) :
    (params.zip args).map Prod.fst = params :=
  List.map_fst_zip (Nat.le_of_eq hargs.symm)

/-- **A parameter is bound to the argument that stands in its position.** -/
theorem argument_eq_some_iff (h : params.Nodup) (hargs : args.length = params.length) :
    argument? params args word = some arg ↔ (word, arg) ∈ params.zip args := by
  rw [argument?, lookup_eq_some_iff_mem, List.mem_reverse]
  rw [List.map_reverse, keys_zip hargs, List.nodup_reverse]
  exact h

/-- Nothing but a parameter is bound. -/
theorem argument_eq_none_iff (hargs : args.length = params.length) :
    argument? params args word = none ↔ word ∉ params := by
  have hkey : word ∈ params ↔ ∃ p ∈ params.zip args, p.1 = word := by
    rw [← List.mem_map, keys_zip hargs]
  rw [argument?, List.lookup_eq_none_iff, hkey]
  constructor
  · rintro h ⟨p, hp, rfl⟩
    exact bne_iff_ne.1 (h p (List.mem_reverse.2 hp)) rfl
  · intro h p hp
    exact bne_iff_ne.2 fun hword => h ⟨p, List.mem_reverse.1 hp, hword.symm⟩

/-- The order of the parameters does not matter. -/
theorem argument_perm {params' : List String} {args' : List Term} (h : params.Nodup)
    (hargs : args.length = params.length) (hargs' : args'.length = params'.length)
    (hperm : (params'.zip args').Perm (params.zip args)) :
    argument? params' args' = argument? params args := by
  have hkeys : params'.Perm params := by
    rw [← keys_zip hargs, ← keys_zip hargs']
    exact hperm.map _
  funext word
  refine Option.ext fun arg => ?_
  rw [argument_eq_some_iff (hkeys.nodup_iff.2 h) hargs', argument_eq_some_iff h hargs,
    hperm.mem_iff]

/-! ### Other names for parameters -/

/-- Another name for every parameter, and for nothing else. -/
def newName (t : Template) (ρ : String → String) (word : String) : String :=
  if word ∈ t.params then ρ word else word

/-- The template with other names for its parameters. -/
def rename (t : Template) (ρ : String → String) : Template :=
  ⟨t.name, t.params.map ρ, t.body.rename (t.newName ρ)⟩

/-- A parameter of another name is bound to the same argument, and what is no parameter is none
afterwards. -/
theorem argument_rename {t : Template} {ρ : String → String} (hnodup : (t.params.map ρ).Nodup)
    (hargs : args.length = t.params.length) (hnew : word ∈ t.params.map ρ → word ∈ t.params) :
    argument? (t.params.map ρ) args (t.newName ρ word) = argument? t.params args word := by
  have hargs' : args.length = (t.params.map ρ).length := by rw [hargs, List.length_map]
  by_cases hword : word ∈ t.params
  · rw [newName, if_pos hword]
    refine Option.ext fun arg => ?_
    rw [argument_eq_some_iff hnodup hargs', argument_eq_some_iff hnodup.of_map hargs,
      List.zip_map_left, List.mem_map]
    constructor
    · rintro ⟨⟨p, a⟩, hp, heq⟩
      obtain ⟨hρ, rfl⟩ := Prod.mk.injEq .. ▸ heq
      -- the new names are different, so the old ones are the same
      have hsame := List.inj_on_of_nodup_map hnodup (List.of_mem_zip hp).1 hword hρ
      rwa [hsame] at hp
    · exact fun hp => ⟨_, hp, rfl⟩
  · rw [newName, if_neg hword, (argument_eq_none_iff hargs).2 hword,
      (argument_eq_none_iff hargs').2 fun h => hword (hnew h)]

section Places

variable {t : Template} {ρ : String → String}

/-- A place where a name stands comes out alike: a parameter's argument takes it under either
name, and what is no parameter keeps its name. -/
theorem filled_name (hnames : (t.params.map ρ).Nodup) (hargs : args.length = t.params.length)
    (hnew : word ∈ t.params.map ρ → word ∈ t.params) :
    ((Mention.name word).rename (t.newName ρ)).filled (argument? (t.params.map ρ) args) =
      (Mention.name word).filled (argument? t.params args) := by
  rw [Mention.rename, Mention.filled, Mention.filled, argument_rename hnames hargs hnew]
  cases hbound : argument? t.params args word with
  | some arg => rfl
  | none => rw [newName, if_neg ((argument_eq_none_iff hargs).1 hbound)]

/-- A subscripted table comes out alike just when it keeps its name or a name takes its place. -/
theorem filled_table_iff (hnames : (t.params.map ρ).Nodup) (hargs : args.length = t.params.length)
    (hnew : word ∈ t.params.map ρ → word ∈ t.params) :
    ((Mention.table word).rename (t.newName ρ)).filled (argument? (t.params.map ρ) args) =
        (Mention.table word).filled (argument? t.params args) ↔
      ∀ arg, (word, arg) ∈ t.params.zip args → ρ word = word ∨ ∃ w, arg = .name w := by
  simp only [Mention.rename, Mention.filled, Term.name.injEq, Term.substituteTable,
    argument_rename hnames hargs hnew, ← argument_eq_some_iff hnames.of_map hargs]
  cases hbound : argument? t.params args word with
  | none => simp [newName, (argument_eq_none_iff hargs).1 hbound]
  | some arg =>
    have hword : word ∈ t.params := by
      by_contra hout
      rw [(argument_eq_none_iff hargs).2 hout] at hbound
      cases hbound
    cases arg <;> simp [newName, hword]

end Places

/-- **Other names for the parameters make no difference** just when no parameter that gets
another name is subscripted with an argument that is no name.  The new names may be any words
that are different from each other and that the body does not use, unless for a parameter.  What
is mentioned in the end is what the body mentions, with the argument's mentions in the place of a
parameter, and they are not looked through again.  The parameters can be listed in any order, as
long as the arguments are listed in the same. -/
theorem instantiate_rename_iff (t : Template) (ρ : String → String) (args : List Term)
    (hparams : t.params.Nodup) (hnames : (t.params.map ρ).Nodup)
    (hfresh : ∀ m ∈ t.body.mentions, m.word ∈ t.params.map ρ → m.word ∈ t.params)
    (hargs : args.length = t.params.length) :
    ((t.rename ρ).instantiate args = t.instantiate args ↔
      ∀ p arg, (p, arg) ∈ t.params.zip args → .table p ∈ t.body.mentions →
        ρ p = p ∨ ∃ word, arg = .name word) ∧
      (t.instantiate args).mentions =
        t.body.mentions.flatMap (Term.namedIn (argument? t.params args)) ∧
      ∀ params' args', args'.length = params'.length →
        (params'.zip args').Perm (t.params.zip args) →
          instantiate ⟨t.name, params', t.body⟩ args' = t.instantiate args := by
  refine ⟨?_, t.body.mentions_substitute, fun params' args' hargs' hperm => ?_⟩
  · rw [instantiate, instantiate, rename, Term.rename_substitute_eq_iff]
    constructor
    · intro hfilled p arg hp hmem
      exact (filled_table_iff hnames hargs (hfresh _ hmem)).1 (hfilled _ hmem) arg hp
    · intro hnamed m hm
      cases m with
      | name word => exact filled_name hnames hargs (hfresh _ hm)
      | table word =>
        exact (filled_table_iff hnames hargs (hfresh _ hm)).2 fun arg hp => hnamed word arg hp hm
  · rw [instantiate, instantiate, argument_perm hparams hargs hargs' hperm]

/-- A template that looks a dungeon up in the table that it is given. -/
def inCavern : Template := ⟨"in_cavern", ["table"], .subscript "table" (.str "Ice Cavern")⟩

/-- With a name as argument the parameter can be called as one likes, with a number it cannot. -/
theorem instantiate_inCavern :
    (inCavern.rename fun _ => "dungeons").instantiate [.name "dungeon_mq"] =
        inCavern.instantiate [.name "dungeon_mq"] ∧
      (inCavern.rename fun _ => "dungeons").instantiate [.int 1] ≠
        inCavern.instantiate [.int 1] := by
  have hrenamed := fun arg => (instantiate_rename_iff inCavern (fun _ => "dungeons") [arg]
    (by decide) (by decide) (by decide) rfl).1
  refine ⟨(hrenamed _).2 fun p arg hp _ => ?_, fun h => ?_⟩
  · obtain ⟨-, rfl⟩ := Prod.mk.injEq .. ▸ List.mem_singleton.1 hp
    exact .inr ⟨_, rfl⟩
  · rcases (hrenamed _).1 h "table" (.int 1) (by decide) (by decide) with hname | ⟨word, hword⟩
    · exact absurd hname (by decide)
    · cases hword

end Template

end Progression.Rule

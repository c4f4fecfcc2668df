/-!
# Tables

A table is a list of entries in ascending order of their keys, with at most one
entry for a key.

## Main definitions

* `Table` — the entries.
* `Table.insert`, `Table.update` — bind a key, replacing its old entry.
* `Table.find?` — the value bound to a key.
* `insertKey` — the same insertion for a bare list of keys.
-/

namespace Progression

/-- Entries in ascending order of their keys. -/
abbrev Table (κ α : Type) := List (κ × α)

namespace Table

variable {κ α : Type} [DecidableEq κ]

/-- The value bound to `k`. -/
def find? (k : κ) : Table κ α → Option α
  | [] => none
  | e :: t => if e.1 = k then some e.2 else find? k t

/-- Whether `k` is bound. -/
def contains (k : κ) (t : Table κ α) : Bool := (t.find? k).isSome

@[simp] theorem find?_nil (k : κ) : find? k ([] : Table κ α) = none := rfl

theorem find?_cons (k : κ) (e : κ × α) (t : Table κ α) :
    find? k (e :: t) = if e.1 = k then some e.2 else find? k t := rfl

variable [LT κ] [DecidableLT κ]

/-- Bind `k` to the result of `f`, which is given the value bound to it so far. -/
def update (k : κ) (f : Option α → α) : Table κ α → Table κ α
  | [] => [(k, f none)]
  | e :: t =>
    if e.1 = k then (k, f (some e.2)) :: t
    else if k < e.1 then (k, f none) :: e :: t
    else e :: update k f t

/-- Bind `k` to `v`. -/
def insert (k : κ) (v : α) (t : Table κ α) : Table κ α := t.update k fun _ => v

/-- To bind a key changes what is found under it, and nothing else. -/
theorem find?_insert (k k' : κ) (v : α) (t : Table κ α) :
    (t.insert k v).find? k' = if k = k' then some v else t.find? k' := by
  unfold insert
  induction t with
  | nil => rw [update, find?_cons, find?_nil]
  | cons e t ih =>
    rw [update]
    split
    · next he =>
      subst he
      rw [find?_cons, find?_cons]
      split <;> rfl
    · next he =>
      split
      · rw [find?_cons]
      · rw [find?_cons, ih, find?_cons]
        split
        · next he' =>
          subst he'
          rw [if_neg (Ne.symm he)]
        · rfl

/-- The table of a list of bindings; a later binding of a key wins. -/
def ofList (bindings : List (κ × α)) : Table κ α :=
  bindings.foldl (fun t e => t.insert e.1 e.2) []

end Table

/-- Insert a key into an ascending list of distinct keys. -/
def insertKey {κ : Type} [DecidableEq κ] [LT κ] [DecidableLT κ] (k : κ) : List κ → List κ
  | [] => [k]
  | x :: xs =>
    if x = k then x :: xs
    else if k < x then k :: x :: xs
    else x :: insertKey k xs

end Progression

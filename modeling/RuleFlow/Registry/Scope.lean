/-!
# Scopes

A scope is a tree in which each name holds a conformer or a scope of further names. The names of a
scope are strictly increasing in the order of strings (`Scope.Ordered`), which every operation
keeps: `ordered_put` for one name and `ordered_set` for a path. `get?_put` says what `put` does to
what the names hold.
-/

namespace RuleFlow

universe u

/-- The names of a scope in order, each with a conformer or a scope of its own. -/
inductive Scope (κ : Type u) where
  | empty
  /-- A name that holds a conformer, and the names after it. -/
  | conformer (name : String) (value : κ) (rest : Scope κ)
  /-- A name that holds a scope, and the names after it. -/
  | inner (name : String) (members : Scope κ) (rest : Scope κ)

inductive Entry (κ : Type u) where
  | conformer (value : κ)
  /-- A scope of further names. -/
  | scope (members : Scope κ)

namespace Scope

variable {κ : Type u}

def names : Scope κ → List String
  | empty => []
  | conformer name _ rest => name :: rest.names
  | inner name _ rest => name :: rest.names

/-! ## One name -/

/-- A scope with one more name before the others. -/
def cons (name : String) : Entry κ → Scope κ → Scope κ
  | .conformer value, rest => conformer name value rest
  | .scope members, rest => inner name members rest

def get? : Scope κ → String → Option (Entry κ)
  | empty, _ => none
  | conformer name value rest, key =>
    if name = key then some (.conformer value) else rest.get? key
  | inner name members rest, key =>
    if name = key then some (.scope members) else rest.get? key

/-- Sets what a name holds: in its place if the name is there, else at its place in the order. -/
def put : Scope κ → String → Entry κ → Scope κ
  | empty, key, e => cons key e empty
  | conformer name value rest, key, e =>
    if key < name then cons key e (conformer name value rest)
    else if name = key then cons key e rest
    else conformer name value (rest.put key e)
  | inner name members rest, key, e =>
    if key < name then cons key e (inner name members rest)
    else if name = key then cons key e rest
    else inner name members (rest.put key e)

/-- The scope that a name holds; the empty one if it holds a conformer or nothing. -/
def membersAt (s : Scope κ) (key : String) : Scope κ :=
  match s.get? key with
  | some (.scope members) => members
  | _ => empty

/-! ## Paths -/

/-- What stands at the end of a path, given as its first segment and the others. -/
def find? : Scope κ → String → List String → Option (Entry κ)
  | s, first, [] => s.get? first
  | s, first, next :: rest =>
    match s.get? first with
    | some (.scope members) => members.find? next rest
    | _ => none

/-- Sets what stands at the end of a path. Scopes are made on the way; a conformer on the way gives
way to a scope. -/
def set : Scope κ → String → List String → Entry κ → Scope κ
  | s, first, [], e => s.put first e
  | s, first, next :: rest, e => s.put first (.scope ((s.membersAt first).set next rest e))

/-! ## Listing -/

/-- A name inside a scope with the given path. In a scope whose path is empty it stands alone. -/
def qualify (path name : String) : String :=
  if path.isEmpty then name else path ++ "." ++ name

/-- The paths of all conformers in a scope with the given path. -/
def paths (path : String) : Scope κ → List String
  | empty => []
  | conformer name _ rest => qualify path name :: rest.paths path
  | inner name members rest => members.paths (qualify path name) ++ rest.paths path

/-! ## Order -/

/-- The names are strictly increasing, in this scope and in those inside it. -/
def Ordered : Scope κ → Prop
  | empty => True
  | conformer name _ rest => (∀ n ∈ rest.names, name < n) ∧ rest.Ordered
  | inner name members rest => (∀ n ∈ rest.names, name < n) ∧ members.Ordered ∧ rest.Ordered

end Scope

/-- The scope that an entry holds, if it holds one, is ordered. -/
def Entry.Ordered {κ : Type u} : Entry κ → Prop
  | .conformer _ => True
  | .scope members => members.Ordered

namespace Scope

variable {κ : Type u}

@[simp] theorem names_cons (name : String) (e : Entry κ) (rest : Scope κ) :
    (cons name e rest).names = name :: rest.names := by
  cases e <;> rfl

theorem ordered_cons {name : String} {e : Entry κ} {rest : Scope κ} :
    (cons name e rest).Ordered ↔ (∀ n ∈ rest.names, name < n) ∧ e.Ordered ∧ rest.Ordered := by
  cases e <;> simp [cons, Ordered, Entry.Ordered]

@[simp] theorem get?_cons (name : String) (e : Entry κ) (rest : Scope κ) (key : String) :
    (cons name e rest).get? key = if name = key then some e else rest.get? key := by
  cases e <;> rfl

/-- Setting what a name holds changes nothing at other names. -/
theorem get?_put (s : Scope κ) (key : String) (e : Entry κ) (k : String) :
    (s.put key e).get? k = if key = k then some e else s.get? k := by
  induction s with
  | empty => simp [put, get?]
  | conformer name value rest ih => grind [put, get?, get?_cons]
  | inner name members rest _ ih => grind [put, get?, get?_cons]

theorem mem_names_put {s : Scope κ} {key : String} {e : Entry κ} {n : String} :
    n ∈ (s.put key e).names ↔ n = key ∨ n ∈ s.names := by
  induction s with
  | empty => simp [put, names]
  | conformer name value rest ih => grind [put, names, names_cons]
  | inner name members rest _ ih => grind [put, names, names_cons]

theorem ordered_put {s : Scope κ} {key : String} {e : Entry κ} (hs : s.Ordered) (he : e.Ordered) :
    (s.put key e).Ordered := by
  induction s with
  | empty => simp [put, ordered_cons, names, Ordered, he]
  | conformer name value rest ih => grind [put, Ordered, ordered_cons, names, mem_names_put]
  | inner name members rest _ ih => grind [put, Ordered, ordered_cons, names, mem_names_put]

theorem Ordered.get? {s : Scope κ} {key : String} {e : Entry κ} (hs : s.Ordered)
    (h : s.get? key = some e) : e.Ordered := by
  induction s with
  | empty => simp [Scope.get?] at h
  | conformer name value rest ih => grind [Scope.get?, Ordered, Entry.Ordered]
  | inner name members rest _ ih => grind [Scope.get?, Ordered, Entry.Ordered]

theorem Ordered.membersAt {s : Scope κ} (hs : s.Ordered) (key : String) :
    (s.membersAt key).Ordered := by
  unfold Scope.membersAt
  split
  · next h => exact hs.get? h
  · trivial

theorem ordered_set {s : Scope κ} {first : String} {rest : List String} {e : Entry κ}
    (hs : s.Ordered) (he : e.Ordered) : (s.set first rest e).Ordered := by
  induction rest generalizing s first with
  | nil => exact ordered_put hs he
  | cons next rest ih => exact ordered_put hs (ih (hs.membersAt first))

end Scope

end RuleFlow

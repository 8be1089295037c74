import RuleFlow.Session.Pool

/-!
# Sessions that hold a registry together

Sessions over a shared registry have no copies of it: they and the pool hold it together, in one
cell that counts its holders. A session that puts a conformer into its registry needs a cell of its
own. If others hold its cell too, it lets go of it and takes a new one with a copy
(`SharedPool.copied`); only then it writes, in place (`SharedPool.insertAt`). All other commands
only read the cell, and the hold that a run has on it ends with the run.
-/

namespace RuleFlow

universe u

/-- A registry, and in how many places it is held. -/
structure Cell (κ : Type u) where
  registry : Registry κ
  holders : Nat

/-- A session that holds its registry in a cell. -/
structure Member (κ : Type u) where
  input : Json
  /-- The number of its cell. -/
  cell : Nat
  state : State κ := .empty

/-- Sessions that hold their registries in cells, where several may hold the same. -/
structure SharedPool (κ : Type u) where
  cells : List (Cell κ)
  /-- The cell that the pool holds itself. -/
  shared : Nat
  members : List (Member κ)

namespace SharedPool

variable {κ : Type u}

/-- The pool around a registry, without sessions. -/
def ofRegistry (shared : Registry κ) : SharedPool κ :=
  { cells := [⟨shared, 1⟩], shared := 0, members := [] }

/-- Adds a session that holds the shared registry. -/
def join (p : SharedPool κ) (input : Json) : SharedPool κ :=
  { p with
    cells := p.cells.modify p.shared fun cell => { cell with holders := cell.holders + 1 }
    members := p.members ++ [{ input, cell := p.shared }] }

/-- Adds a session with a registry that no one else holds. -/
def joinApart (p : SharedPool κ) (input : Json) (registry : Registry κ) : SharedPool κ :=
  { p with
    cells := p.cells ++ [⟨registry, 1⟩]
    members := p.members ++ [{ input, cell := p.cells.length }] }

/-- The pool around a registry, with a session over it for each input. -/
def ofInputs (shared : Registry κ) (inputs : List Json) : SharedPool κ :=
  inputs.foldl join (ofRegistry shared)

/-- Adds a session for each input, with the registry beside it, which no one else holds. -/
def joinAllApart (p : SharedPool κ) (apart : List (Json × Registry κ)) : SharedPool κ :=
  apart.foldl (fun p own => p.joinApart own.1 own.2) p

/-- The registry that the pool holds itself. -/
def common? (p : SharedPool κ) : Option (Registry κ) :=
  p.cells[p.shared]?.map Cell.registry

/-- The session at a position, with the registry of its cell. -/
def session? (p : SharedPool κ) (i : Nat) : Option (Session κ) :=
  p.members[i]?.bind fun m => p.cells[m.cell]?.map fun cell =>
    { input := m.input, registry := cell.registry, state := m.state }

/-! ## Commands -/

/-- A session lets go of its cell and takes a new one with a copy of the registry. -/
def copied (p : SharedPool κ) (i : Nat) (m : Member κ) (cell : Cell κ) : SharedPool κ :=
  { p with
    cells := p.cells.set m.cell { cell with holders := cell.holders - 1 } ++ [⟨cell.registry, 1⟩]
    members := p.members.set i { m with cell := p.cells.length } }

/-- Makes a session the only holder of its cell, by a copy unless it is the only one as it is. -/
def detach (p : SharedPool κ) (i : Nat) : SharedPool κ :=
  match p.members[i]? with
  | none => p
  | some m =>
    match p.cells[m.cell]? with
    | none => p
    | some cell => if cell.holders = 1 then p else p.copied i m cell

/-- Puts a conformer into the cell that a session holds. -/
def insertAt (p : SharedPool κ) (i : Nat) (path : String) (c : κ) : SharedPool κ :=
  match p.members[i]? with
  | none => p
  | some m =>
    { p with
      cells := p.cells.modify m.cell fun cell =>
        { cell with registry := cell.registry.insert path c } }

def setState (p : SharedPool κ) (i : Nat) (state : State κ) : SharedPool κ :=
  { p with members := p.members.modify i fun m => { m with state } }

/-- Keeps what a command has made of the session at a position. -/
def keep (p : SharedPool κ) (i : Nat) (session : Session κ) : Command κ → SharedPool κ
  | .addConformer path c => (p.detach i).insertAt i path c
  | _ => p.setState i session.state

variable [Conformer κ]

/-- Carries out a command in the session at a position. There is no answer if there is no such
session. -/
def perform (p : SharedPool κ) (i : Nat) (command : Command κ) :
    Option (Performed κ) × SharedPool κ :=
  match p.session? i with
  | none => (none, p)
  | some session =>
    let performed := session.perform command
    let p := p.keep i performed.session command
    ((p.session? i).map fun session => { performed with session }, p)

def performAll (p : SharedPool κ) (steps : List (Nat × Command κ)) : SharedPool κ :=
  performEach perform p steps

def answers (p : SharedPool κ) (steps : List (Nat × Command κ)) : List (Nat × Performed κ) :=
  answersEach perform p steps

end SharedPool

end RuleFlow

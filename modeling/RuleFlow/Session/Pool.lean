import RuleFlow.Session.Basic

/-!
# Sessions side by side

A pool has a registry that sessions start with, and sessions, each with its registry to itself. Each
session goes its own way: a command to one session changes neither the others nor the registry that
they started with.
-/

namespace RuleFlow

universe u v

variable {κ : Type u}

/-! ## Commands at positions -/

section
variable {P : Type v} (perform : P → Nat → Command κ → Option (Performed κ) × P)

/-- Carries out commands one after the other, each at its position. -/
def performEach (p : P) (steps : List (Nat × Command κ)) : P :=
  steps.foldl (fun p step => (perform p step.1 step.2).2) p

/-- What commands come to that are carried out one after the other, each at its position. -/
def answersEach : P → List (Nat × Command κ) → List (Nat × Performed κ)
  | _, [] => []
  | p, (i, command) :: steps =>
    (perform p i command).1.toList.map (i, ·) ++ answersEach (perform p i command).2 steps

end

/-! ## Pools -/

/-- Sessions, and a registry that sessions start with. -/
structure Pool (κ : Type u) where
  shared : Registry κ
  sessions : List (Session κ)

namespace Pool

variable [Conformer κ]

/-- Carries out a command in the session at a position. There is no answer if there is no such
session. -/
def perform (p : Pool κ) (i : Nat) (command : Command κ) : Option (Performed κ) × Pool κ :=
  match p.sessions[i]? with
  | none => (none, p)
  | some session =>
    let performed := session.perform command
    (some performed, { p with sessions := p.sessions.set i performed.session })

def performAll (p : Pool κ) (steps : List (Nat × Command κ)) : Pool κ := performEach perform p steps

def answers (p : Pool κ) (steps : List (Nat × Command κ)) : List (Nat × Performed κ) :=
  answersEach perform p steps

end Pool

/-- What commands come to that a session carries out one after the other. -/
def Session.answers [Conformer κ] : Session κ → List (Command κ) → List (Performed κ)
  | _, [] => []
  | s, command :: commands => s.perform command :: (s.perform command).session.answers commands

/-- What is for the session at a position, or comes from it, in order. -/
def ownOf {α : Type v} (i : Nat) (xs : List (Nat × α)) : List α :=
  xs.filterMap fun x => if x.1 = i then some x.2 else none

end RuleFlow

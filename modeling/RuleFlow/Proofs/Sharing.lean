import RuleFlow.Builtin
import RuleFlow.Session.Sharing

/-!
# Sharing is not seen

Cells are in balance when they count their holders right (`SharedPool.Balanced`), and then a cell
with one holder is seen from one place only. So a session that writes to its cell, as it does only
when it holds it alone, changes what it sees itself and nothing else (`look_insertAt`), and if it
takes a copy before, it sees there what it saw in the cell that it let go of (`look_copied`). What
is seen of such a pool is a pool in which each session has its registry to itself
(`SharedPool.Shows`), whether it joined with the shared registry or with another one
(`joined_shows`), and both give the same answers (`Shows.performAll`). There each session goes its
own way (`Pool.performAll_alone`).
-/

namespace RuleFlow

universe u v

variable {κ : Type u}

theorem eq_of_count_eq_one {α : Type u} [BEq α] [LawfulBEq α] {xs : List α} {x : α}
    (h : xs.count x = 1) {i j : Nat} (hi : xs[i]? = some x) (hj : xs[j]? = some x) : i = j := by
  induction xs generalizing i j with
  | nil => cases hi
  | cons y xs ih =>
    by_cases hy : y = x
    · subst hy
      rw [List.count_cons_self, Nat.add_eq_right, List.count_eq_zero] at h
      have hzero : ∀ {k}, (y :: xs)[k]? = some y → k = 0 := by
        intro k hk
        cases k with
        | zero => rfl
        | succ k =>
          rw [List.getElem?_cons_succ] at hk
          exact absurd (List.mem_of_getElem? hk) h
      rw [hzero hi, hzero hj]
    · rw [List.count_cons_of_ne hy] at h
      cases i with
      | zero => cases hi; exact absurd rfl hy
      | succ i =>
        cases j with
        | zero => cases hj; exact absurd rfl hy
        | succ j => rw [ih h hi hj]

theorem getElem?_concat {α : Type u} (xs : List α) (x : α) (i : Nat) :
    (xs ++ [x])[i]? = if i = xs.length then some x else xs[i]? := by
  grind

namespace SharedPool

variable {p : SharedPool κ} {i : Nat}

/-! ## Who holds what -/

/-- The cells that are held: first by the pool itself, then by its sessions in order. -/
def held (p : SharedPool κ) : List Nat := p.shared :: p.members.map (·.cell)

/-- The registry that is seen from a place among the holders. -/
def look (p : SharedPool κ) (k : Nat) : Option (Registry κ) :=
  p.held[k]?.bind fun n => p.cells[n]?.map Cell.registry

/-- What the sessions have besides their registries. -/
def unshared (p : SharedPool κ) : List (Json × State κ) := p.members.map fun m => (m.input, m.state)

/-- The session at a position holds its cell alone. -/
def Alone (p : SharedPool κ) (i : Nat) : Prop :=
  ∀ n, p.held[i + 1]? = some n → p.held.count n = 1

/-- All that is held is there, and each cell counts its holders right. -/
structure Balanced (p : SharedPool κ) : Prop where
  held_lt : ∀ n ∈ p.held, n < p.cells.length
  holders_eq : ∀ n cell, p.cells[n]? = some cell → cell.holders = p.held.count n

theorem common?_eq_look (p : SharedPool κ) : p.common? = p.look 0 := rfl

theorem held_succ (p : SharedPool κ) (i : Nat) :
    p.held[i + 1]? = p.members[i]?.map (·.cell) := by
  rw [held, List.getElem?_cons_succ, List.getElem?_map]

theorem held_of_member {m : Member κ} (hm : p.members[i]? = some m) :
    p.held[i + 1]? = some m.cell := by
  rw [held_succ, hm]
  rfl

theorem look_of_held {k n : Nat} (hk : p.held[k]? = some n) :
    p.look k = p.cells[n]?.map Cell.registry := by
  rw [look, hk]
  rfl

theorem Balanced.count_new (hp : p.Balanced) : p.held.count p.cells.length = 0 :=
  List.count_eq_zero.2 fun h => Nat.lt_irrefl _ (hp.held_lt _ h)

/-! ## Writing in place -/

@[simp] theorem held_insertAt (p : SharedPool κ) (i : Nat) (path : String) (c : κ) :
    (p.insertAt i path c).held = p.held := by
  unfold insertAt
  split <;> rfl

theorem Balanced.insertAt (hp : p.Balanced) (i : Nat) (path : String) (c : κ) :
    (p.insertAt i path c).Balanced := by
  unfold SharedPool.insertAt
  split
  · exact hp
  · next m _ =>
    refine ⟨fun n hn => ?_, fun n cell hcell => ?_⟩
    · rw [List.length_modify]
      exact hp.held_lt n hn
    · -- The cell that is written to keeps its number of holders.
      simp only [List.getElem?_modify, Option.map_eq_map, Option.map_eq_some_iff] at hcell
      obtain ⟨old, hold, rfl⟩ := hcell
      have hholders : old.holders = p.held.count n := hp.holders_eq n old hold
      split <;> exact hholders

/-- What the only holder of a cell writes to it is seen by no one else. -/
theorem look_insertAt (halone : p.Alone i) (path : String) (c : κ) (k : Nat) :
    (p.insertAt i path c).look k =
      if k = i + 1 then (p.look k).map (·.insert path c) else p.look k := by
  cases hm : p.members[i]? with
  | none =>
    simp only [SharedPool.insertAt, hm]
    split
    · next hk => rw [hk, look, held_succ, hm]; rfl
    · rfl
  | some m =>
    have hown := held_of_member hm
    cases hk : p.held[k]? with
    | none =>
      have hk' : (p.insertAt i path c).held[k]? = none := by rw [held_insertAt, hk]
      rw [look, hk', look, hk]
      simp
    | some n =>
      have hk' : (p.insertAt i path c).held[k]? = some n := by rw [held_insertAt, hk]
      rw [look_of_held hk', look_of_held hk]
      simp only [SharedPool.insertAt, hm, List.getElem?_modify]
      by_cases hki : k = i + 1
      · subst hki
        cases hown.symm.trans hk
        cases p.cells[m.cell]? <;> simp
      · have hne : m.cell ≠ n := by
          rintro rfl
          exact hki (eq_of_count_eq_one (halone _ hown) hk hown)
        cases p.cells[n]? <;> simp [hki, hne]

/-! ## Taking a copy -/

section
variable {m : Member κ} {cell : Cell κ}

theorem held_copied (p : SharedPool κ) (i : Nat) (m : Member κ) (cell : Cell κ) :
    (p.copied i m cell).held = p.held.set (i + 1) p.cells.length := by
  simp [copied, held, List.map_set]

theorem getElem?_cells_copied (n : Nat) : (p.copied i m cell).cells[n]? =
    if p.cells.length = n then some ⟨cell.registry, 1⟩
    else if m.cell = n then p.cells[n]?.map fun _ => { cell with holders := cell.holders - 1 }
    else p.cells[n]? := by
  simp only [copied, List.getElem?_append, List.length_set, List.getElem?_set]
  by_cases hn : n < p.cells.length
  · by_cases hm : m.cell = n
    · subst hm
      simp [hn, Nat.ne_of_gt hn]
    · simp [hn, hm, Nat.ne_of_gt hn]
  · by_cases hlast : p.cells.length = n
    · subst hlast
      simp
    · have hout : n - p.cells.length ≠ 0 := by omega
      simp [hn, hlast, hout]

theorem count_held_copied (hm : p.members[i]? = some m) (n : Nat) :
    (p.copied i m cell).held.count n =
      p.held.count n - (if m.cell = n then 1 else 0) + if p.cells.length = n then 1 else 0 := by
  obtain ⟨hlt, hget⟩ := List.getElem?_eq_some_iff.1 (held_of_member hm)
  rw [held_copied, List.count_set hlt, hget]
  simp only [beq_iff_eq]

theorem Balanced.copied (hp : p.Balanced) (hm : p.members[i]? = some m)
    (hcell : p.cells[m.cell]? = some cell) : (p.copied i m cell).Balanced := by
  refine ⟨fun n hn => ?_, fun n c hc => ?_⟩
  · have hlength : (p.copied i m cell).cells.length = p.cells.length + 1 := by
      simp [SharedPool.copied]
    rw [held_copied] at hn
    rw [hlength]
    rcases List.mem_or_eq_of_mem_set hn with hn | rfl
    · exact Nat.lt_succ_of_lt (hp.held_lt n hn)
    · exact Nat.lt_succ_self _
  · -- The old cell has lost a holder and the new one, which was not held, has one.
    have hlt : m.cell < p.cells.length := (List.getElem?_eq_some_iff.1 hcell).1
    rw [getElem?_cells_copied] at hc
    rw [count_held_copied hm]
    split at hc
    · next hlast =>
      cases hc
      subst hlast
      rw [hp.count_new, if_neg (Nat.ne_of_lt hlt), if_pos rfl]
    · next hlast =>
      rw [if_neg hlast]
      split at hc
      · next hown =>
        subst hown
        rw [hcell] at hc
        cases hc
        rw [if_pos rfl, ← hp.holders_eq _ _ hcell]
        rfl
      · next hother =>
        rw [if_neg hother]
        exact hp.holders_eq n c hc

/-- A copy looks like what it is a copy of. -/
theorem look_copied (hp : p.Balanced) (hm : p.members[i]? = some m)
    (hcell : p.cells[m.cell]? = some cell) (k : Nat) : (p.copied i m cell).look k = p.look k := by
  have hown := held_of_member hm
  by_cases hk : k = i + 1
  · subst hk
    have hnew : (p.copied i m cell).held[i + 1]? = some p.cells.length := by
      rw [held_copied, List.getElem?_set_self (List.getElem?_eq_some_iff.1 hown).1]
    rw [look_of_held hnew, look_of_held hown, getElem?_cells_copied, if_pos rfl, hcell]
    rfl
  · have hsame : (p.copied i m cell).held[k]? = p.held[k]? := by
      rw [held_copied, List.getElem?_set_ne (Ne.symm hk)]
    rw [look, look, hsame]
    cases hn : p.held[k]? with
    | none => rfl
    | some n =>
      have hlast : p.cells.length ≠ n :=
        Nat.ne_of_gt (hp.held_lt n (List.mem_of_getElem? hn))
      rw [Option.bind_some, Option.bind_some, getElem?_cells_copied, if_neg hlast]
      split
      · next hold => rw [← hold, hcell]; rfl
      · rfl

/-- A session with a new cell holds it alone. -/
theorem Balanced.alone_copied (hp : p.Balanced) (hm : p.members[i]? = some m)
    (hcell : p.cells[m.cell]? = some cell) : (p.copied i m cell).Alone i := by
  have hnew : (p.copied i m cell).cells[p.cells.length]? = some ⟨cell.registry, 1⟩ := by
    rw [getElem?_cells_copied, if_pos rfl]
  have hlt := (List.getElem?_eq_some_iff.1 (held_of_member hm)).1
  intro n hn
  rw [held_copied, List.getElem?_set_self hlt] at hn
  cases hn
  exact ((hp.copied hm hcell).holders_eq _ _ hnew).symm

theorem unshared_copied (hm : p.members[i]? = some m) :
    (p.copied i m cell).unshared = p.unshared := by
  obtain ⟨hlt, hget⟩ := List.getElem?_eq_some_iff.1 hm
  rw [unshared, copied, List.map_set]
  refine List.ext_getElem? fun j => ?_
  rw [List.getElem?_set]
  split
  · next hj => subst hj; simp [unshared, hlt, hget]
  · rfl

end

/-- A session keeps a cell that it holds alone, and takes a copy of any other. -/
theorem Balanced.detach_cases (hp : p.Balanced) (i : Nat) :
    p.members[i]? = none ∧ p.detach i = p ∨
    ∃ m cell, p.members[i]? = some m ∧ p.cells[m.cell]? = some cell ∧
      (cell.holders = 1 ∧ p.detach i = p ∨ p.detach i = p.copied i m cell) := by
  cases hm : p.members[i]? with
  | none =>
    simp only [SharedPool.detach, hm]
    exact .inl ⟨trivial, trivial⟩
  | some m =>
    have hlt : m.cell < p.cells.length :=
      hp.held_lt _ (List.mem_of_getElem? (held_of_member hm))
    have hcell : p.cells[m.cell]? = some p.cells[m.cell] := List.getElem?_eq_getElem hlt
    refine .inr ⟨m, _, rfl, hcell, ?_⟩
    by_cases hone : p.cells[m.cell].holders = 1
    · exact .inl ⟨hone, by simp only [SharedPool.detach, hm, hcell, if_pos hone]⟩
    · exact .inr (by simp only [SharedPool.detach, hm, hcell, if_neg hone])

/-- A session that is made to hold its cell alone has and sees what it had and saw, and so do all
others. -/
theorem Balanced.detach (hp : p.Balanced) (i : Nat) :
    (p.detach i).Balanced ∧ (p.detach i).Alone i ∧ (p.detach i).unshared = p.unshared ∧
      ∀ k, (p.detach i).look k = p.look k := by
  rcases hp.detach_cases i with ⟨hm, hdetach⟩ | ⟨m, cell, hm, hcell, ⟨hone, hdetach⟩ | hdetach⟩
  · rw [hdetach]
    refine ⟨hp, fun n hn => ?_, rfl, fun _ => rfl⟩
    rw [held_succ, hm] at hn
    cases hn
  · rw [hdetach]
    refine ⟨hp, fun n hn => ?_, rfl, fun _ => rfl⟩
    cases (held_of_member hm).symm.trans hn
    rw [← hp.holders_eq _ _ hcell, hone]
  · rw [hdetach]
    exact ⟨hp.copied hm hcell, hp.alone_copied hm hcell, unshared_copied hm,
      look_copied hp hm hcell⟩

/-! ## What commands change -/

theorem session?_eq_unshared (p : SharedPool κ) (i : Nat) : p.session? i =
    p.unshared[i]?.bind fun own => (p.look (i + 1)).map fun registry =>
      { input := own.1, registry, state := own.2 } := by
  unfold session? look held unshared
  rw [List.getElem?_cons_succ, List.getElem?_map, List.getElem?_map]
  cases p.members[i]? with
  | none => rfl
  | some m => simp [Option.map_map, Function.comp_def]

theorem unshared_insertAt (p : SharedPool κ) (i : Nat) (path : String) (c : κ) :
    (p.insertAt i path c).unshared = p.unshared := by
  unfold insertAt
  split <;> rfl

/-- Only the session itself sees the conformer that it puts into its registry. -/
theorem Balanced.session?_add (hp : p.Balanced) (i : Nat) (path : String) (c : κ) (j : Nat) :
    ((p.detach i).insertAt i path c).session? j =
      if j = i then (p.session? j).map fun s => { s with registry := s.registry.insert path c }
      else p.session? j := by
  obtain ⟨_, halone, hunshared, hlook⟩ := hp.detach i
  rw [session?_eq_unshared, session?_eq_unshared, unshared_insertAt, hunshared,
    look_insertAt halone, hlook]
  by_cases hj : j = i
  · rw [if_pos hj, if_pos (congrArg (· + 1) hj)]
    cases p.unshared[j]? <;> cases p.look (j + 1) <;> rfl
  · rw [if_neg hj, if_neg fun h => hj (Nat.succ.inj h)]

theorem held_setState (p : SharedPool κ) (i : Nat) (state : State κ) :
    (p.setState i state).held = p.held := by
  simp only [held, setState, List.cons.injEq, true_and]
  refine List.ext_getElem? fun j => ?_
  simp only [List.getElem?_map, List.getElem?_modify]
  cases p.members[j]? with
  | none => rfl
  | some m => by_cases hj : i = j <;> simp [hj]

theorem Balanced.setState (hp : p.Balanced) (i : Nat) (state : State κ) :
    (p.setState i state).Balanced := by
  refine ⟨fun n hn => ?_, fun n cell hcell => ?_⟩
  · rw [held_setState] at hn
    exact hp.held_lt n hn
  · rw [held_setState]
    exact hp.holders_eq n cell hcell

theorem look_setState (p : SharedPool κ) (i : Nat) (state : State κ) (k : Nat) :
    (p.setState i state).look k = p.look k := by
  rw [look, held_setState]
  rfl

theorem session?_setState (p : SharedPool κ) (i : Nat) (state : State κ) (j : Nat) :
    (p.setState i state).session? j =
      if j = i then (p.session? j).map fun s => { s with state } else p.session? j := by
  have hunshared : (p.setState i state).unshared[j]? =
      if j = i then p.unshared[j]?.map fun own => (own.1, state) else p.unshared[j]? := by
    simp only [unshared, SharedPool.setState, List.getElem?_map, List.getElem?_modify]
    cases p.members[j]? with
    | none => simp
    | some m =>
      by_cases hj : j = i
      · subst hj
        simp
      · simp [hj, Ne.symm hj]
  rw [session?_eq_unshared, session?_eq_unshared, hunshared, look_setState]
  split
  · cases p.unshared[j]? <;> cases p.look (j + 1) <;> rfl
  · rfl

/-! ## What is seen of a pool -/

/-- What is seen from all places, as a pool in which each session has its registry to itself. -/
structure Shows (p : SharedPool κ) (q : Pool κ) : Prop where
  shared : p.common? = some q.shared
  session : ∀ i, p.session? i = q.sessions[i]?

variable {q : Pool κ}

theorem Balanced.session?_eq_none_iff (hp : p.Balanced) :
    p.session? i = none ↔ p.members.length ≤ i := by
  rw [← List.getElem?_eq_none_iff, session?]
  cases hm : p.members[i]? with
  | none => simp
  | some m =>
    have hlt : m.cell < p.cells.length := hp.held_lt _ (List.mem_of_getElem? (held_of_member hm))
    simp [hlt]

theorem Shows.length_eq (h : p.Shows q) (hp : p.Balanced) :
    p.members.length = q.sessions.length := by
  have hle : ∀ i, p.members.length ≤ i ↔ q.sessions.length ≤ i := fun i => by
    rw [← hp.session?_eq_none_iff, h.session, List.getElem?_eq_none_iff]
  exact Nat.le_antisymm ((hle _).2 (Nat.le_refl _)) ((hle _).1 (Nat.le_refl _))

/-- A session with a fresh state sees the registry of its place; what the others see stays. -/
theorem Shows.append (h : p.Shows q) (hp : p.Balanced) {p' : SharedPool κ} {input : Json}
    {registry : Registry κ} (hunshared : p'.unshared = p.unshared ++ [(input, .empty)])
    (hlook : ∀ k, p'.look k = if k = p.held.length then some registry else p.look k) :
    p'.Shows { q with sessions := q.sessions ++ [Session.new input registry] } := by
  have hlength : p.unshared.length = p.members.length := List.length_map ..
  have hheld : p.held.length = p.members.length + 1 := by simp [held]
  refine ⟨?_, fun i => ?_⟩
  · rw [common?_eq_look, hlook, hheld, if_neg (Nat.succ_ne_zero _).symm]
    exact h.shared
  · rw [session?_eq_unshared, hunshared, hlook, hheld, getElem?_concat, getElem?_concat, hlength,
      ← h.length_eq hp]
    by_cases hi : i = p.members.length
    · rw [if_pos hi, if_pos hi, if_pos (congrArg (· + 1) hi)]
      rfl
    · rw [if_neg hi, if_neg hi, if_neg fun h => hi (Nat.succ.inj h), ← session?_eq_unshared,
        h.session]

/-! ## Sessions that join -/

theorem held_join (p : SharedPool κ) (input : Json) :
    (p.join input).held = p.held ++ [p.shared] := by
  simp [held, join]

theorem Balanced.join (hp : p.Balanced) (input : Json) : (p.join input).Balanced := by
  refine ⟨fun n hn => ?_, fun n cell hcell => ?_⟩
  · have hlength : (p.join input).cells.length = p.cells.length := List.length_modify ..
    rw [held_join, List.mem_append, List.mem_singleton] at hn
    rw [hlength]
    rcases hn with hn | rfl
    · exact hp.held_lt n hn
    · exact hp.held_lt _ List.mem_cons_self
  · simp only [SharedPool.join, List.getElem?_modify, Option.map_eq_map,
      Option.map_eq_some_iff] at hcell
    obtain ⟨old, hold, rfl⟩ := hcell
    have hholders : old.holders = p.held.count n := hp.holders_eq n old hold
    rw [held_join, List.count_append, ← hholders]
    by_cases hn : p.shared = n <;> simp [hn]

theorem look_join (p : SharedPool κ) (input : Json) (k : Nat) : (p.join input).look k =
    if k = p.held.length then p.common? else p.look k := by
  have hcells : ∀ n : Nat,
      (p.join input).cells[n]?.map Cell.registry = p.cells[n]?.map Cell.registry := by
    intro n
    simp only [SharedPool.join, List.getElem?_modify]
    cases p.cells[n]? with
    | none => rfl
    | some cell => by_cases hn : p.shared = n <;> simp [hn]
  simp only [look, held_join, getElem?_concat, hcells]
  split <;> rfl

/-- A session that joins sees the shared registry. -/
theorem Shows.join (h : p.Shows q) (hp : p.Balanced) (input : Json) : (p.join input).Shows
    { q with sessions := q.sessions ++ [Session.new input q.shared] } := by
  refine h.append hp ?_ fun k => ?_
  · simp [unshared, SharedPool.join]
  · rw [look_join, h.shared]

theorem held_joinApart (p : SharedPool κ) (input : Json) (registry : Registry κ) :
    (p.joinApart input registry).held = p.held ++ [p.cells.length] := by
  simp [held, joinApart]

theorem Balanced.joinApart (hp : p.Balanced) (input : Json) (registry : Registry κ) :
    (p.joinApart input registry).Balanced := by
  refine ⟨fun n hn => ?_, fun n cell hcell => ?_⟩
  · have hlength : (p.joinApart input registry).cells.length = p.cells.length + 1 := by
      simp [SharedPool.joinApart]
    rw [held_joinApart, List.mem_append, List.mem_singleton] at hn
    rw [hlength]
    rcases hn with hn | rfl
    · exact Nat.lt_succ_of_lt (hp.held_lt n hn)
    · exact Nat.lt_succ_self _
  · simp only [SharedPool.joinApart, getElem?_concat] at hcell
    rw [held_joinApart, List.count_append]
    split at hcell
    · next hn =>
      cases hcell
      subst hn
      rw [hp.count_new]
      simp
    · next hn =>
      have hne : p.cells.length ≠ n := Ne.symm hn
      rw [hp.holders_eq n cell hcell]
      simp [hne]

theorem look_joinApart (hp : p.Balanced) (input : Json) (registry : Registry κ) (k : Nat) :
    (p.joinApart input registry).look k =
      if k = p.held.length then some registry else p.look k := by
  rw [look, held_joinApart, getElem?_concat]
  by_cases hk : k = p.held.length
  · simp [hk, SharedPool.joinApart]
  · rw [if_neg hk, if_neg hk, look]
    cases hn : p.held[k]? with
    | none => rfl
    | some n =>
      have hlt : n < p.cells.length := hp.held_lt n (List.mem_of_getElem? hn)
      simp only [Option.bind_some, SharedPool.joinApart, getElem?_concat]
      rw [if_neg (Nat.ne_of_lt hlt)]

/-- A session that joins with a registry sees this one. -/
theorem Shows.joinApart (h : p.Shows q) (hp : p.Balanced) (input : Json) (registry : Registry κ) :
    (p.joinApart input registry).Shows
      { q with sessions := q.sessions ++ [Session.new input registry] } := by
  refine h.append hp ?_ (look_joinApart hp input registry)
  simp [unshared, SharedPool.joinApart]

theorem balanced_ofRegistry (shared : Registry κ) : (ofRegistry shared).Balanced := by
  refine ⟨fun n hn => ?_, fun n cell hcell => ?_⟩
  · cases List.mem_singleton.1 hn
    exact Nat.zero_lt_one
  · obtain ⟨hlt, hget⟩ := List.getElem?_eq_some_iff.1 hcell
    cases Nat.lt_one_iff.1 hlt
    cases hget
    rfl

theorem shows_ofRegistry (shared : Registry κ) :
    (ofRegistry shared).Shows { shared, sessions := [] } :=
  ⟨rfl, fun _ => rfl⟩

/-- A series of sessions is seen to be added if each of them is. -/
theorem Shows.foldl {α : Type v} {add : SharedPool κ → α → SharedPool κ} (start : α → Session κ)
    {shared : Registry κ} {sessions : List (Session κ)}
    (hadd : ∀ {p : SharedPool κ} {sessions} (x : α), p.Balanced → p.Shows ⟨shared, sessions⟩ →
      (add p x).Balanced ∧ (add p x).Shows ⟨shared, sessions ++ [start x]⟩)
    (hp : p.Balanced) (h : p.Shows ⟨shared, sessions⟩) (xs : List α) :
    (xs.foldl add p).Balanced ∧
      (xs.foldl add p).Shows ⟨shared, sessions ++ xs.map start⟩ := by
  induction xs generalizing p sessions with
  | nil =>
    rw [List.map_nil, List.append_nil]
    exact ⟨hp, h⟩
  | cons x xs ih =>
    obtain ⟨hp', h'⟩ := hadd x hp h
    have hrest := ih hp' h'
    rwa [List.append_assoc] at hrest

/-- A pool that sessions have joined is in balance, and each of them sees the registry that it
joined with. -/
theorem joined_shows (shared : Registry κ) (inputs : List Json)
    (apart : List (Json × Registry κ)) :
    ((ofInputs shared inputs).joinAllApart apart).Balanced ∧
      ((ofInputs shared inputs).joinAllApart apart).Shows ⟨shared,
        inputs.map (Session.new · shared) ++ apart.map fun own => Session.new own.1 own.2⟩ := by
  obtain ⟨hbalanced, hshows⟩ := Shows.foldl (Session.new · shared)
    (fun input hp h => ⟨hp.join input, h.join hp input⟩) (balanced_ofRegistry shared)
    (shows_ofRegistry shared) inputs
  exact Shows.foldl (fun own => Session.new own.1 own.2)
    (fun own hp h => ⟨hp.joinApart own.1 own.2, h.joinApart hp own.1 own.2⟩) hbalanced hshows apart

/-! ## Commands in a shared pool -/

section
variable [Conformer κ]

/-- What is kept of a command is seen by the session that carried it out, and by no one else. -/
theorem Balanced.keep (hp : p.Balanced) {s : Session κ} (hs : p.session? i = some s)
    (command : Command κ) :
    (p.keep i (s.perform command).session command).Balanced ∧
    (p.keep i (s.perform command).session command).common? = p.common? ∧
    ∀ j, (p.keep i (s.perform command).session command).session? j =
      if j = i then some (s.perform command).session else p.session? j := by
  -- All but one of the commands leave the registry as it is.
  have hstate : ∀ state, (p.setState i state).Balanced ∧
      (p.setState i state).common? = p.common? ∧
      ∀ j, (p.setState i state).session? j =
        if j = i then some { s with state } else p.session? j := by
    refine fun state => ⟨hp.setState i state, rfl, fun j => ?_⟩
    rw [session?_setState]
    split
    · next hj => rw [hj, hs]; rfl
    · rfl
  cases command with
  | conform _ => exact hstate _
  | conformJson _ => exact hstate _
  | runField _ _ => exact hstate _
  | reset => exact hstate _
  | addConformer path c =>
    obtain ⟨hdetach, halone, _, hlook⟩ := hp.detach i
    refine ⟨hdetach.insertAt i path c, ?_, fun j => ?_⟩
    · rw [common?_eq_look, common?_eq_look, SharedPool.keep, look_insertAt halone, hlook]
      rfl
    · refine (hp.session?_add i path c j).trans ?_
      split
      · next hj => rw [hj, hs]; rfl
      · rfl

/-- A command has the same answer in both pools, and they stay alike. -/
theorem Shows.perform (h : p.Shows q) (hp : p.Balanced) (i : Nat) (command : Command κ) :
    (p.perform i command).1 = (q.perform i command).1 ∧
    (p.perform i command).2.Balanced ∧
    (p.perform i command).2.Shows (q.perform i command).2 := by
  cases hs : p.session? i with
  | none =>
    have hq : q.sessions[i]? = none := (h.session i).symm.trans hs
    simp only [SharedPool.perform, Pool.perform, hs, hq]
    exact ⟨trivial, hp, h⟩
  | some s =>
    have hq : q.sessions[i]? = some s := (h.session i).symm.trans hs
    obtain ⟨hbalanced, hshared, hsession⟩ := hp.keep hs command
    simp only [SharedPool.perform, Pool.perform, hs, hq, hsession]
    refine ⟨rfl, hbalanced, hshared.trans h.shared, fun j => ?_⟩
    rw [hsession, h.session, List.getElem?_set]
    by_cases hj : j = i
    · subst hj
      simp [(List.getElem?_eq_some_iff.1 hq).1]
    · simp [hj, Ne.symm hj]

/-- Commands have the same answers in both pools, and the pools stay alike. -/
theorem Shows.performAll (h : p.Shows q) (hp : p.Balanced) (steps : List (Nat × Command κ)) :
    p.answers steps = q.answers steps ∧ (p.performAll steps).Shows (q.performAll steps) := by
  induction steps generalizing p q with
  | nil => exact ⟨rfl, h⟩
  | cons step steps ih =>
    obtain ⟨hanswer, hbalanced, hshows⟩ := h.perform hp step.1 step.2
    obtain ⟨hanswers, hrest⟩ := ih hshows hbalanced
    refine ⟨?_, hrest⟩
    rw [SharedPool.answers, Pool.answers, answersEach, answersEach, hanswer]
    exact congrArg _ hanswers

end

end SharedPool

/-! ## Each session on its own -/

section
variable [Conformer κ] {q : Pool κ}

theorem ownOf_cons_self {α : Type u} (i : Nat) (x : α) (xs : List (Nat × α)) :
    ownOf i ((i, x) :: xs) = x :: ownOf i xs := by
  simp [ownOf]

theorem ownOf_cons_of_ne {α : Type u} {i j : Nat} (h : j ≠ i) (x : α) (xs : List (Nat × α)) :
    ownOf i ((j, x) :: xs) = ownOf i xs := by
  simp [ownOf, h]

theorem Pool.perform_self {i : Nat} {s : Session κ} (hs : q.sessions[i]? = some s)
    (command : Command κ) : (q.perform i command).1 = some (s.perform command) ∧
      (q.perform i command).2.sessions[i]? = some (s.perform command).session := by
  simp only [Pool.perform, hs, true_and]
  exact List.getElem?_set_self (List.getElem?_eq_some_iff.1 hs).1

theorem Pool.perform_other {i j : Nat} (h : j ≠ i) (q : Pool κ) (command : Command κ) :
    (q.perform j command).2.sessions[i]? = q.sessions[i]? := by
  unfold Pool.perform
  split
  · rfl
  · exact List.getElem?_set_ne h

theorem Pool.shared_performAll (q : Pool κ) (steps : List (Nat × Command κ)) :
    (q.performAll steps).shared = q.shared := by
  induction steps generalizing q with
  | nil => rfl
  | cons step steps ih =>
    refine (ih (q.perform step.1 step.2).2).trans ?_
    unfold Pool.perform
    split <;> rfl

/-- A session of a pool answers its own commands and gets where they lead. -/
theorem Pool.performAll_alone {i : Nat} {s : Session κ} (hs : q.sessions[i]? = some s)
    (steps : List (Nat × Command κ)) :
    ownOf i (q.answers steps) = s.answers (ownOf i steps) ∧
      (q.performAll steps).sessions[i]? = some (s.performAll (ownOf i steps)) := by
  induction steps generalizing q s with
  | nil => exact ⟨rfl, hs⟩
  | cons step steps ih =>
    obtain ⟨j, command⟩ := step
    by_cases hj : j = i
    · subst hj
      obtain ⟨hanswer, hsession⟩ := Pool.perform_self hs command
      obtain ⟨hanswers, hrest⟩ := ih hsession
      rw [Pool.answers, answersEach, hanswer, ownOf_cons_self]
      refine ⟨?_, hrest⟩
      exact (ownOf_cons_self ..).trans (congrArg _ hanswers)
    · obtain ⟨hanswers, hrest⟩ := ih ((Pool.perform_other hj q command).trans hs)
      rw [Pool.answers, answersEach, ownOf_cons_of_ne hj]
      refine ⟨?_, hrest⟩
      cases (q.perform j command).1 with
      | none => exact hanswers
      | some performed => exact (ownOf_cons_of_ne hj ..).trans hanswers

/-- **Sessions over a shared registry do not interfere**, and neither do sessions beside them that
have registries of their own. Whatever commands they get, and in whatever order, each of them gives
the answers that it would give, and gets where it would get, if it was alone with a registry of its
own and got only its own commands. The shared registry stays what it was. -/
theorem SharedPool.performs_as_alone (shared : Registry κ) (inputs : List Json)
    (apart : List (Json × Registry κ)) (steps : List (Nat × Command κ)) :
    let p := (SharedPool.ofInputs shared inputs).joinAllApart apart
    let sessions := inputs.map (Session.new · shared) ++ apart.map fun own => Session.new own.1 own.2
    (p.performAll steps).common? = some shared ∧
    ∀ i s, sessions[i]? = some s →
      ownOf i (p.answers steps) = s.answers (ownOf i steps) ∧
      (p.performAll steps).session? i = some (s.performAll (ownOf i steps)) := by
  obtain ⟨hbalanced, hshows⟩ := SharedPool.joined_shows shared inputs apart
  obtain ⟨hanswers, hend⟩ := hshows.performAll hbalanced steps
  refine ⟨?_, fun i s hs => ?_⟩
  · rw [hend.shared, Pool.shared_performAll]
  · rw [hanswers, hend.session]
    exact Pool.performAll_alone hs steps

/-- The first session puts a conformer in place of a shared scope, which the other one still has. -/
example :
    let c : Builtin := ⟨0, "c", .pass⟩
    let p := (SharedPool.ofInputs (.ofList [("a.b", c)]) [.null, .null]).performAll
      [(0, .addConformer "a" c)]
    (p.session? 0).map (·.registry.paths) = some ["a"] ∧
    (p.session? 1).map (·.registry.paths) = some ["a.b"] ∧
    p.common?.map Registry.paths = some ["a.b"] := by
  decide +kernel

end

end RuleFlow

import RuleFlow.OrderedMap

/-!
# Series of writes to a map

`OrderedMap.insertAll` makes writes one after the other, and `ofList` makes them to the map without
entries. Writes keep every key in its place, so that the keys of a map only grow at their end
(`keys_prefix_insertAll`), and a write to a new key adds an entry at the end
(`entries_insertAll_of_nodup`). Two maps without a common key can be put one behind the other
(`append`).
-/

namespace RuleFlow

universe u v

variable {α : Type u}

theorem Entries.insert_of_notMem {es : List (String × α)} {key : String} (value : α)
    (h : key ∉ keys es) : insert es key value = es ++ [(key, value)] := by
  induction es with
  | nil => rfl
  | cons e es ih =>
    rw [keys_cons, List.mem_cons, not_or] at h
    rw [insert, if_neg (Ne.symm h.1), ih h.2, List.cons_append]

namespace OrderedMap

/-! ## Keys under writes -/

theorem keys_prefix_insert (m : OrderedMap α) (key : String) (value : α) :
    m.keys <+: (m.insert key value).keys := by
  rw [keys_insert]
  split
  · exact List.prefix_rfl
  · exact List.prefix_append _ _

theorem mem_keys_insert {m : OrderedMap α} {key : String} {value : α} {k : String} :
    k ∈ (m.insert key value).keys ↔ k = key ∨ k ∈ m.keys := by
  rw [keys_insert]
  split
  · next h => exact ⟨.inr, fun hk => hk.elim (fun e => e ▸ h) id⟩
  · rw [List.mem_append, List.mem_singleton, or_comm]

/-- Sets entries one after the other. -/
def insertAll (m : OrderedMap α) (es : List (String × α)) : OrderedMap α :=
  es.foldl (fun m e => m.insert e.1 e.2) m

theorem insertAll_empty (es : List (String × α)) : empty.insertAll es = ofList es := rfl

@[simp] theorem insertAll_nil (m : OrderedMap α) : m.insertAll [] = m := rfl

@[simp] theorem insertAll_cons (m : OrderedMap α) (e : String × α) (es : List (String × α)) :
    m.insertAll (e :: es) = (m.insert e.1 e.2).insertAll es := rfl

theorem insertAll_append (m : OrderedMap α) (es fs : List (String × α)) :
    m.insertAll (es ++ fs) = (m.insertAll es).insertAll fs := List.foldl_append

theorem ofList_append (es fs : List (String × α)) :
    ofList (es ++ fs) = (ofList es).insertAll fs := insertAll_append empty es fs

/-- Writes take no key out of its place. -/
theorem keys_prefix_insertAll (m : OrderedMap α) (es : List (String × α)) :
    m.keys <+: (m.insertAll es).keys := by
  induction es generalizing m with
  | nil => exact List.prefix_rfl
  | cons e es ih => exact (m.keys_prefix_insert e.1 e.2).trans (ih _)

theorem mem_keys_insertAll {m : OrderedMap α} {es : List (String × α)} {k : String} :
    k ∈ (m.insertAll es).keys ↔ k ∈ m.keys ∨ k ∈ Entries.keys es := by
  induction es generalizing m with
  | nil => simp
  | cons e es ih =>
    rw [insertAll_cons, ih, mem_keys_insert, Entries.keys_cons, List.mem_cons, or_assoc,
      or_left_comm]

theorem mem_keys_ofList {es : List (String × α)} {k : String} :
    k ∈ (ofList es).keys ↔ k ∈ Entries.keys es := by
  rw [← insertAll_empty, mem_keys_insertAll, keys_empty]
  simp

/-- Which keys a map has after writes depends on the keys only. -/
theorem keys_insertAll_congr {β : Type v} {m : OrderedMap α} {n : OrderedMap β}
    {es : List (String × α)} {fs : List (String × β)} (hkeys : m.keys = n.keys)
    (h : Entries.keys es = Entries.keys fs) : (m.insertAll es).keys = (n.insertAll fs).keys := by
  induction es generalizing m n fs with
  | nil =>
    cases fs with
    | nil => exact hkeys
    | cons f fs => cases h
  | cons e es ih =>
    cases fs with
    | nil => cases h
    | cons f fs =>
      rw [Entries.keys_cons, Entries.keys_cons, List.cons.injEq] at h
      have hinsert : (m.insert e.1 e.2).keys = (n.insert f.1 f.2).keys := by
        rw [keys_insert, keys_insert, hkeys, h.1]
      rw [insertAll_cons, insertAll_cons]
      exact ih hinsert h.2

/-! ## Writes to new keys -/

theorem entries_insert_of_notMem {m : OrderedMap α} {key : String} (value : α)
    (h : key ∉ m.keys) : (m.insert key value).entries = m.entries ++ [(key, value)] :=
  Entries.insert_of_notMem value h

theorem entries_insertAll_of_nodup {m : OrderedMap α} {es : List (String × α)}
    (h : (m.keys ++ Entries.keys es).Nodup) : (m.insertAll es).entries = m.entries ++ es := by
  induction es generalizing m with
  | nil => simp
  | cons e es ih =>
    have he : e.1 ∉ m.keys := fun hm => (List.nodup_append.1 h).2.2 _ hm _ List.mem_cons_self rfl
    have hkeys : (m.insert e.1 e.2).keys = m.keys ++ [e.1] := by rw [keys_insert, if_neg he]
    have hrest : ((m.insert e.1 e.2).keys ++ Entries.keys es).Nodup := by
      rw [hkeys, List.append_assoc]
      exact h
    rw [insertAll_cons, ih hrest, entries_insert_of_notMem e.2 he, List.append_assoc]
    rfl

/-- The map of entries under distinct keys has these entries. -/
theorem entries_ofList {es : List (String × α)} (h : (Entries.keys es).Nodup) :
    (ofList es).entries = es := entries_insertAll_of_nodup (m := empty) h

/-! ## One map behind another -/

/-- A map and, behind it, one that shares no key with it. -/
def append (m n : OrderedMap α) (h : ∀ key ∈ m.keys, key ∉ n.keys) : OrderedMap α where
  entries := m.entries ++ n.entries
  nodup := by
    rw [Entries.keys, List.map_append]
    exact List.nodup_append.2 ⟨m.nodup, n.nodup, fun k hm _ hn e => h k hm (e ▸ hn)⟩

@[simp] theorem entries_append (m n : OrderedMap α) (h : ∀ key ∈ m.keys, key ∉ n.keys) :
    (m.append n h).entries = m.entries ++ n.entries := rfl

end OrderedMap
end RuleFlow

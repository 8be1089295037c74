/-!
# Maps in insertion order

An `OrderedMap` holds values under distinct string keys and remembers the order in which the keys
first came. Writing to a key that is there keeps its place. The operations are defined on the list
of entries; `get?_insert` and `keys_insert` say what a write does to the two views of a map.
-/

namespace RuleFlow

universe u v

variable {α : Type u} {β : Type v}

/-! ## Lists of entries -/

namespace Entries

/-- The value of the first entry with this key. -/
def get? : List (String × α) → String → Option α
  | [], _ => none
  | (k, v) :: rest, key => if k = key then some v else get? rest key

/-- Overwrites the value of the first entry with this key, or adds an entry at the end. -/
def insert : List (String × α) → String → α → List (String × α)
  | [], key, value => [(key, value)]
  | (k, v) :: rest, key, value =>
    if k = key then (k, value) :: rest else (k, v) :: insert rest key value

def keys (entries : List (String × α)) : List String := entries.map Prod.fst

@[simp] theorem keys_nil : keys ([] : List (String × α)) = [] := rfl

@[simp] theorem keys_cons (e : String × α) (es : List (String × α)) :
    keys (e :: es) = e.1 :: keys es := rfl

theorem get?_eq_none_iff {es : List (String × α)} {key : String} :
    get? es key = none ↔ key ∉ keys es := by
  induction es with
  | nil => simp [get?]
  | cons e es ih =>
    obtain ⟨k, v⟩ := e
    by_cases h : k = key
    · simp [get?, h]
    · simp [get?, h, ih, Ne.symm h]

theorem mem_of_get? {es : List (String × α)} {key : String} {value : α}
    (h : get? es key = some value) : (key, value) ∈ es := by
  induction es with
  | nil => cases h
  | cons e es ih =>
    obtain ⟨k, v⟩ := e
    rw [get?] at h
    split at h
    · next hk =>
      cases h
      rw [hk]
      exact List.mem_cons_self
    · exact List.mem_cons_of_mem _ (ih h)

theorem get?_insert (es : List (String × α)) (key : String) (value : α) (k : String) :
    get? (insert es key value) k = if key = k then some value else get? es k := by
  induction es with
  | nil => simp [insert, get?]
  | cons e es ih =>
    obtain ⟨k₀, v₀⟩ := e
    by_cases h : k₀ = key
    · subst h
      by_cases hk : k₀ = k <;> simp [insert, get?, hk]
    · by_cases hk : k₀ = k
      · subst hk
        simp [insert, get?, h, Ne.symm h]
      · simp [insert, get?, h, hk, ih]

theorem keys_insert (es : List (String × α)) (key : String) (value : α) :
    keys (insert es key value) = if key ∈ keys es then keys es else keys es ++ [key] := by
  induction es with
  | nil => simp [insert]
  | cons e es ih =>
    obtain ⟨k₀, v₀⟩ := e
    by_cases h : k₀ = key
    · simp [insert, h]
    · simp only [insert, h, if_false, keys_cons, ih, List.mem_cons, Ne.symm h, false_or]
      split <;> simp

theorem nodup_keys_insert {es : List (String × α)} (h : (keys es).Nodup) (key : String)
    (value : α) : (keys (insert es key value)).Nodup := by
  rw [keys_insert]
  split
  · exact h
  · next hk => exact List.nodup_append.2 ⟨h, by simp, by rintro a ha b hb rfl; simp_all⟩

end Entries

/-! ## Maps -/

/-- Values under distinct keys, in the order in which the keys first came. -/
@[ext]
structure OrderedMap (α : Type u) where
  entries : List (String × α)
  /-- No key occurs twice. -/
  nodup : (Entries.keys entries).Nodup

namespace OrderedMap

def empty : OrderedMap α := ⟨[], .nil⟩

instance : EmptyCollection (OrderedMap α) := ⟨empty⟩

instance : Inhabited (OrderedMap α) := ⟨empty⟩

def keys (m : OrderedMap α) : List String := Entries.keys m.entries

def size (m : OrderedMap α) : Nat := m.entries.length

def get? (m : OrderedMap α) (key : String) : Option α := Entries.get? m.entries key

/-- The value at a key, or `fallback` when the key is absent. -/
def getD (m : OrderedMap α) (key : String) (fallback : α) : α := (m.get? key).getD fallback

/-- Sets the value at a key: in its place if the key is there, else at the end. -/
def insert (m : OrderedMap α) (key : String) (value : α) : OrderedMap α :=
  ⟨Entries.insert m.entries key value, Entries.nodup_keys_insert m.nodup key value⟩

/-- The map of a list of entries: a repeated key keeps its first place and takes its last value. -/
def ofList (es : List (String × α)) : OrderedMap α :=
  es.foldl (fun m e => m.insert e.1 e.2) empty

@[simp] theorem keys_empty : (empty : OrderedMap α).keys = [] := rfl

@[simp] theorem get?_empty (key : String) : (empty : OrderedMap α).get? key = none := rfl

@[simp] theorem get?_insert (m : OrderedMap α) (key : String) (value : α) (k : String) :
    (m.insert key value).get? k = if key = k then some value else m.get? k :=
  Entries.get?_insert m.entries key value k

theorem keys_insert (m : OrderedMap α) (key : String) (value : α) :
    (m.insert key value).keys = if key ∈ m.keys then m.keys else m.keys ++ [key] :=
  Entries.keys_insert m.entries key value

theorem get?_eq_none_iff {m : OrderedMap α} {key : String} : m.get? key = none ↔ key ∉ m.keys :=
  Entries.get?_eq_none_iff

end OrderedMap

end RuleFlow

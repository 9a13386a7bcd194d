/-! Values by text key, in the order in which the keys were first written. No key has two entries. A
write changes the value found at its own key and no other. -/
namespace OutcomeMarket

namespace TextMap

variable {α : Type}

/-- Write a value on an entry list: in place if the key has an entry, else at the end. -/
def put (key : String) (a : α) : List (String × α) → List (String × α)
  | [] => [(key, a)]
  | e :: es => if e.1 = key then (key, a) :: es else e :: put key a es

theorem map_fst_put_of_mem {key : String} {a : α} {es : List (String × α)}
    (h : key ∈ es.map Prod.fst) : (put key a es).map Prod.fst = es.map Prod.fst := by
  induction es with
  | nil => cases h
  | cons e es ih =>
    unfold put
    split
    · rename_i he
      simp [he]
    · rename_i he
      have : key ∈ es.map Prod.fst := by
        rcases List.mem_cons.1 h with h | h
        · exact absurd h.symm he
        · exact h
      simp [ih this]

theorem map_fst_put_of_not_mem {key : String} {a : α} {es : List (String × α)}
    (h : key ∉ es.map Prod.fst) : (put key a es).map Prod.fst = es.map Prod.fst ++ [key] := by
  induction es with
  | nil => rfl
  | cons e es ih =>
    have he : ¬ e.1 = key := fun he => h (by simp [he])
    have ht : key ∉ es.map Prod.fst := fun ht => h (List.mem_cons_of_mem _ ht)
    simp [put, he, ih ht]

theorem nodup_put (key : String) (a : α) {es : List (String × α)}
    (h : (es.map Prod.fst).Nodup) : ((put key a es).map Prod.fst).Nodup := by
  by_cases hm : key ∈ es.map Prod.fst
  · rwa [map_fst_put_of_mem hm]
  · rw [map_fst_put_of_not_mem hm, List.nodup_append]
    refine ⟨h, by simp, ?_⟩
    rintro x hx y hy rfl
    exact hm (List.mem_singleton.1 hy ▸ hx)

end TextMap

/-- Entries with distinct keys. -/
structure TextMap (α : Type) where
  entries : List (String × α)
  nodup : (entries.map Prod.fst).Nodup

namespace TextMap

variable {α : Type}

def empty : TextMap α := ⟨[], List.nodup_nil⟩

instance : Inhabited (TextMap α) := ⟨empty⟩

def find? (m : TextMap α) (key : String) : Option α := m.entries.lookup key

def insert (m : TextMap α) (key : String) (a : α) : TextMap α :=
  ⟨put key a m.entries, nodup_put key a m.nodup⟩

/-- The same keys with other values. -/
def map {β : Type} (f : α → β) (m : TextMap α) : TextMap β where
  entries := m.entries.map fun e => (e.1, f e.2)
  nodup := by
    have h : (m.entries.map fun e => (e.1, f e.2)).map Prod.fst = m.entries.map Prod.fst := by
      simp [Function.comp_def]
    rw [h]
    exact m.nodup

def keys (m : TextMap α) : List String := m.entries.map Prod.fst

def contains (m : TextMap α) (key : String) : Bool := (m.find? key).isSome

@[simp] theorem find?_empty (key : String) : (empty : TextMap α).find? key = none := rfl

theorem lookup_put (key other : String) (a : α) (es : List (String × α)) :
    (put key a es).lookup other = if other = key then some a else es.lookup other := by
  induction es with
  | nil =>
    by_cases h : other = key
    · simp [put, h]
    · have hb : (other == key) = false := by simpa using h
      simp [put, List.lookup_cons, hb, h]
  | cons e es ih =>
    obtain ⟨k, v⟩ := e
    unfold put
    split
    · rename_i hk
      by_cases h : other = key
      · simp [h]
      · have hb : (other == key) = false := by simpa using h
        have hb' : (other == k) = false := by simpa using fun hh => h (hh.trans hk)
        simp [List.lookup_cons, h, hb, hb']
    · rename_i hk
      by_cases h : other = k
      · have hne : ¬ other = key := fun hh => hk (h.symm.trans hh)
        have hb : (other == k) = true := by simpa using h
        simp [List.lookup_cons, hb, hne]
      · have hb : (other == k) = false := by simpa using h
        simp [List.lookup_cons, hb, ih]

theorem find?_insert (m : TextMap α) (key other : String) (a : α) :
    (m.insert key a).find? other = if other = key then some a else m.find? other :=
  lookup_put key other a m.entries

theorem lookup_map {β : Type} (f : α → β) (key : String) (es : List (String × α)) :
    (es.map fun e => (e.1, f e.2)).lookup key = (es.lookup key).map f := by
  induction es with
  | nil => rfl
  | cons e es ih =>
    obtain ⟨k, v⟩ := e
    simp only [List.map_cons, List.lookup_cons]
    cases key == k
    · exact ih
    · rfl

theorem find?_map {β : Type} (f : α → β) (m : TextMap α) (key : String) :
    (m.map f).find? key = (m.find? key).map f := lookup_map f key m.entries

@[simp] theorem find?_insert_self (m : TextMap α) (key : String) (a : α) :
    (m.insert key a).find? key = some a := by simp [find?_insert]

theorem find?_insert_of_ne (m : TextMap α) {key other : String} (h : other ≠ key) (a : α) :
    (m.insert key a).find? other = m.find? other := by simp [find?_insert, h]

end TextMap
end OutcomeMarket

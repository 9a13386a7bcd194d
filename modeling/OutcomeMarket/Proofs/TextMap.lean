import Mathlib.Algebra.BigOperators.Group.List.Basic
import Mathlib.Algebra.Order.Field.Rat
import Mathlib.Tactic.Ring
import OutcomeMarket.TextMap

/-! More about values by text key: what a write does to a later write, to a map over all values, and to a sum or a
collection of them. -/
namespace OutcomeMarket
namespace TextMap

variable {α β : Type} {key : String} {a b : α}

theorem lookup_of_mem {es : List (String × α)} (hn : (es.map Prod.fst).Nodup) {e : String × α} (he : e ∈ es) :
    es.lookup e.1 = some e.2 := by
  induction es with
  | nil => cases he
  | cons x es ih =>
    rw [List.map_cons, List.nodup_cons] at hn
    rw [List.lookup_cons]
    obtain rfl | he := List.mem_cons.1 he
    · simp
    · have hne : (e.1 == x.1) = false := by
        rw [beq_eq_false_iff_ne]
        intro h
        exact hn.1 (h ▸ List.mem_map_of_mem he)
      rw [hne]
      exact ih hn.2 he

theorem mem_of_lookup {es : List (String × α)} (h : es.lookup key = some a) : (key, a) ∈ es := by
  obtain ⟨before, after, rfl, -⟩ := List.lookup_eq_some_iff.1 h
  exact List.mem_append_right before List.mem_cons_self

theorem put_put (es : List (String × α)) : put key b (put key a es) = put key b es := by
  induction es with
  | nil => simp [put]
  | cons e es ih =>
    by_cases h : e.1 = key
    · simp [put, h]
    · simp [put, h, ih]

/-- The later of two values under one key is the one that stays. -/
theorem insert_insert (m : TextMap α) : (m.insert key a).insert key b = m.insert key b := by
  unfold insert
  congr 1
  exact put_put m.entries

theorem map_put (f : α → β) (key : String) (a : α) (es : List (String × α)) :
    (put key a es).map (fun e => (e.1, f e.2)) = put key (f a) (es.map fun e => (e.1, f e.2)) := by
  induction es with
  | nil => rfl
  | cons e es ih =>
    by_cases h : e.1 = key
    · simp [put, h]
    · simp [put, h, ih]

theorem map_insert (f : α → β) (m : TextMap α) (key : String) (a : α) :
    (m.insert key a).map f = (m.map f).insert key (f a) := by
  unfold map insert
  congr 1
  exact map_put f key a m.entries

/-- A value that is written over another one adds to a collection what it has more than that. -/
theorem flatMap_put_perm {es : List (String × α)} {f : α → List β} {xs : List β}
    (h : f a = (es.lookup key).elim [] f ++ xs) :
    ((put key a es).flatMap fun e => f e.2).Perm ((es.flatMap fun e => f e.2) ++ xs) := by
  induction es with
  | nil => simp_all [put]
  | cons e es ih =>
    obtain ⟨k, old⟩ := e
    unfold put
    rw [List.lookup_cons] at h
    split
    · rename_i hk
      have hb : (key == k) = true := by simpa using hk.symm
      rw [hb] at h
      rw [List.flatMap_cons, List.flatMap_cons, List.append_assoc]
      change (f a ++ _).Perm _
      rw [h, List.append_assoc]
      exact List.perm_append_comm.append_left _
    · rename_i hk
      have hb : (key == k) = false := by simpa using Ne.symm hk
      rw [hb] at h
      rw [List.flatMap_cons, List.flatMap_cons, List.append_assoc]
      exact (ih h).append_left _

/-- A write moves a sum over all values by as much as it changes the value at its key. -/
theorem sum_put (f : α → ℚ) {absent : α} (h0 : f absent = 0) (key : String) (a : α) (es : List (String × α)) :
    ((put key a es).map fun e => f e.2).sum =
      (es.map fun e => f e.2).sum - f ((es.lookup key).getD absent) + f a := by
  induction es with
  | nil => simp [put, h0]
  | cons e es ih =>
    unfold put
    by_cases hk : e.1 = key
    · rw [if_pos hk, List.lookup_cons, hk, beq_self_eq_true]
      simp
      ring
    · have hb : (key == e.1) = false := beq_eq_false_iff_ne.2 (Ne.symm hk)
      rw [if_neg hk, List.lookup_cons, hb, List.map_cons, List.sum_cons, ih, List.map_cons, List.sum_cons]
      ring

end TextMap
end OutcomeMarket

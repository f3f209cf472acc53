/-!
# Keyed lists

Values under keys, in the order in which the keys were added. Each operation is described by what
it does to `get?`.
-/

set_option autoImplicit false

namespace StreamMemory

abbrev KeyedList (κ ν : Type) := List (κ × ν)

namespace KeyedList

variable {κ ν : Type} [DecidableEq κ]

def get? (k : κ) : KeyedList κ ν → Option ν
  | [] => none
  | e :: es => if e.1 = k then some e.2 else get? k es

/-- Replaces the value of a key where it stands, or adds it at the end. -/
def put (k : κ) (v : ν) : KeyedList κ ν → KeyedList κ ν
  | [] => [(k, v)]
  | e :: es => if e.1 = k then (k, v) :: es else e :: put k v es

def erase (k : κ) : KeyedList κ ν → KeyedList κ ν
  | [] => []
  | e :: es => if e.1 = k then erase k es else e :: erase k es

theorem get?_put (k k' : κ) (v : ν) (es : KeyedList κ ν) :
    get? k' (put k v es) = if k = k' then some v else get? k' es := by
  induction es with
  | nil => rfl
  | cons e es ih =>
    rw [put]
    split <;> grind [get?]

theorem get?_erase (k k' : κ) (es : KeyedList κ ν) :
    get? k' (erase k es) = if k = k' then none else get? k' es := by
  induction es with
  | nil => simp [erase, get?]
  | cons e es ih =>
    rw [erase]
    split <;> grind [get?]

theorem get?_append (k : κ) (es fs : KeyedList κ ν) :
    get? k (es ++ fs) = (get? k es).or (get? k fs) := by
  induction es with
  | nil => rfl
  | cons e es ih =>
    rw [List.cons_append, get?, get?]
    split <;> simp_all

theorem get?_eq_none_iff (k : κ) (es : KeyedList κ ν) : get? k es = none ↔ ∀ e ∈ es, e.1 ≠ k := by
  induction es with
  | nil => simp [get?]
  | cons e es ih =>
    rw [get?]
    split <;> simp_all

theorem mem_of_get? {k : κ} {v : ν} {es : KeyedList κ ν} (h : get? k es = some v) :
    (k, v) ∈ es := by
  induction es with
  | nil => cases h
  | cons e es ih =>
    rw [get?] at h
    split at h
    · rename_i hk
      cases h
      rw [← hk]
      exact List.mem_cons_self
    · exact List.mem_cons_of_mem _ (ih h)

theorem erase_sublist (k : κ) (es : KeyedList κ ν) : (erase k es).Sublist es := by
  induction es with
  | nil => exact .slnil
  | cons e es ih =>
    rw [erase]
    split
    · exact ih.cons e
    · exact ih.cons_cons e

theorem get?_of_mem {k : κ} {v : ν} {es : KeyedList κ ν} (hn : (es.map Prod.fst).Nodup)
    (h : (k, v) ∈ es) : get? k es = some v := by
  induction es with
  | nil => cases h
  | cons e es ih =>
    rw [List.map_cons, List.nodup_cons] at hn
    rw [get?]
    rcases List.mem_cons.mp h with rfl | h
    · exact if_pos rfl
    · rw [if_neg]
      · exact ih hn.2 h
      · rintro rfl
        exact hn.1 (List.mem_map.mpr ⟨_, h, rfl⟩)

omit [DecidableEq κ] in
/-- If no value stands twice, a value tells its key. -/
theorem key_eq_of_mem {j k : κ} {v : ν} {es : KeyedList κ ν} (hn : (es.map Prod.snd).Nodup)
    (hj : (j, v) ∈ es) (hk : (k, v) ∈ es) : j = k := by
  induction es with
  | nil => cases hj
  | cons e es ih =>
    rw [List.map_cons, List.nodup_cons] at hn
    rw [List.mem_cons] at hj hk
    rcases hj with hj | hj <;> rcases hk with hk | hk
    · exact congrArg Prod.fst (hj.trans hk.symm)
    · exact (hn.1 (hj ▸ List.mem_map.mpr ⟨(k, v), hk, rfl⟩)).elim
    · exact (hn.1 (hk ▸ List.mem_map.mpr ⟨(j, v), hj, rfl⟩)).elim
    · exact ih hn.2 hj hk

theorem put_of_get?_eq_none {k : κ} {es : KeyedList κ ν} (h : get? k es = none) (v : ν) :
    put k v es = es ++ [(k, v)] := by
  induction es with
  | nil => rfl
  | cons e es ih =>
    rw [get?] at h
    split at h
    · cases h
    · rename_i hk
      rw [put, if_neg hk, ih h]
      rfl

theorem erase_of_get?_eq_none {k : κ} {es : KeyedList κ ν} (h : get? k es = none) :
    erase k es = es := by
  induction es with
  | nil => rfl
  | cons e es ih =>
    rw [get?] at h
    split at h
    · cases h
    · rename_i hk
      rw [erase, if_neg hk, ih h]

/-- Where a key stands, and what `put` and `erase` do there. -/
theorem exists_split {k : κ} {v : ν} {es : KeyedList κ ν} (h : get? k es = some v) :
    ∃ front back, es = front ++ (k, v) :: back ∧ (∀ w, put k w es = front ++ (k, w) :: back) ∧
      ((es.map Prod.fst).Nodup → erase k es = front ++ back) := by
  induction es with
  | nil => cases h
  | cons e es ih =>
    rw [get?] at h
    split at h
    · rename_i hk
      cases h
      subst hk
      refine ⟨[], es, rfl, fun w => if_pos rfl, ?_⟩
      intro hn
      rw [List.map_cons, List.nodup_cons] at hn
      rw [erase, if_pos rfl, List.nil_append]
      apply erase_of_get?_eq_none
      rw [get?_eq_none_iff]
      exact fun f hf hk => hn.1 (List.mem_map.mpr ⟨f, hf, hk⟩)
    · rename_i hk
      obtain ⟨front, back, rfl, hput, herase⟩ := ih h
      refine ⟨e :: front, back, rfl, ?_, ?_⟩
      · intro w
        rw [put, if_neg hk, hput]
        rfl
      · intro hn
        rw [List.map_cons, List.nodup_cons] at hn
        rw [erase, if_neg hk, herase hn.2]
        rfl

theorem nodup_keys_put {es : KeyedList κ ν} (h : (es.map Prod.fst).Nodup) (k : κ) (v : ν) :
    ((put k v es).map Prod.fst).Nodup := by
  cases hk : get? k es with
  | none =>
    rw [put_of_get?_eq_none hk, List.map_append]
    rw [get?_eq_none_iff] at hk
    refine List.nodup_append.mpr ⟨h, by simp, ?_⟩
    rintro _ hj _ hk' rfl
    obtain ⟨e, he, rfl⟩ := List.mem_map.mp hj
    exact hk e he (List.mem_singleton.mp hk')
  | some w =>
    obtain ⟨front, back, rfl, hput, -⟩ := exists_split hk
    rw [hput]
    simpa using h

end KeyedList

end StreamMemory

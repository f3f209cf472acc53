import StreamMemory.Emulated
import StreamMemory.Machine.Trace

/-!
# Free lists as parcels

Free lists hold each of their blocks under a key. Taken apart into parcels, pushing a block adds one
parcel and popping a block takes one away, and the cached bytes are the bytes of the parcels.
-/

set_option autoImplicit false

namespace StreamMemory

/-- A block that is kept for a resource under a key. -/
structure Parcel where
  resource : ResourceId
  key : BlockKey
  block : BlockId
  deriving DecidableEq, Repr

def Parcel.loan (p : Parcel) : Loan := ⟨p.block, p.resource, p.key.bytes, p.key.alignment⟩

def parcels (r : ResourceId) (lists : KeyedList BlockKey (List BlockId)) : List Parcel :=
  lists.flatMap fun (k, bs) => bs.map fun b => ⟨r, k, b⟩

@[simp] theorem parcels_cons (r : ResourceId) (k : BlockKey) (bs : List BlockId)
    (lists : KeyedList BlockKey (List BlockId)) :
    parcels r ((k, bs) :: lists) = bs.map (fun b => ⟨r, k, b⟩) ++ parcels r lists := rfl

@[simp] theorem parcels_append (r : ResourceId) (front back : KeyedList BlockKey (List BlockId)) :
    parcels r (front ++ back) = parcels r front ++ parcels r back :=
  List.flatMap_append

theorem parcels_perm (r : ResourceId) {lists lists' : KeyedList BlockKey (List BlockId)}
    (h : lists.Perm lists') : (parcels r lists).Perm (parcels r lists') :=
  h.flatMap_right _

theorem resource_of_mem_parcels {r : ResourceId} {lists : KeyedList BlockKey (List BlockId)}
    {p : Parcel} (h : p ∈ parcels r lists) : p.resource = r := by
  obtain ⟨⟨k, bs⟩, -, hp⟩ := List.mem_flatMap.mp h
  obtain ⟨b, -, rfl⟩ := List.mem_map.mp hp
  rfl

theorem totalBytes_eq_total_parcels (r : ResourceId) (lists : KeyedList BlockKey (List BlockId)) :
    FreeLists.totalBytes lists = total (fun p => p.key.bytes) (parcels r lists) := by
  induction lists with
  | nil => rfl
  | cons entry lists ih =>
    obtain ⟨k, bs⟩ := entry
    have hbs : total (fun p => p.key.bytes) (bs.map fun b => (⟨r, k, b⟩ : Parcel)) =
        k.bytes * bs.length := by
      rw [total_map]
      exact total_eq_mul fun _ _ => rfl
    rw [parcels_cons, total_append, ← ih, hbs]
    rfl

namespace FreeLists

/-- Every key stands once, no key has an empty list, and the running count of bytes is right. -/
structure Sound (f : FreeLists) : Prop where
  keys : (f.lists.map Prod.fst).Nodup
  filled : ∀ entry ∈ f.lists, entry.2 ≠ []
  counted : f.cachedBytes = totalBytes f.lists

theorem Sound.empty : ({} : FreeLists).Sound :=
  ⟨List.nodup_nil, fun _ h => (by cases h), rfl⟩

variable {f g : FreeLists} {k : BlockKey} {b : BlockId}

theorem parcels_push (f : FreeLists) (k : BlockKey) (b : BlockId) (r : ResourceId) :
    (parcels r (f.push k b).lists).Perm (⟨r, k, b⟩ :: parcels r f.lists) := by
  unfold push blocks
  dsimp only
  cases hk : f.lists.get? k with
  | none =>
    rw [KeyedList.put_of_get?_eq_none hk, parcels_append]
    exact List.perm_append_comm
  | some bs =>
    obtain ⟨front, back, hlists, hput, -⟩ := KeyedList.exists_split hk
    rw [hput, hlists, parcels_append, parcels_append]
    exact List.perm_middle

theorem exists_split_of_pop (h : f.Sound) (hp : f.pop k = some (b, g)) :
    ∃ bs front back, f.lists = front ++ (k, b :: bs) :: back ∧
      g.lists = front ++ (if bs = [] then back else (k, bs) :: back) ∧
      g.cachedBytes = f.cachedBytes - k.bytes := by
  unfold pop at hp
  split at hp
  · cases hp
  · rename_i b' bs hb
    cases hp
    have hk : f.lists.get? k = some (b :: bs) := by
      unfold blocks at hb
      cases hk : f.lists.get? k with
      | none => simp [hk] at hb
      | some cs => simpa [hk] using hb
    obtain ⟨front, back, hlists, hput, herase⟩ := KeyedList.exists_split hk
    refine ⟨bs, front, back, hlists, ?_, rfl⟩
    cases bs with
    | nil => exact herase h.keys
    | cons c cs => exact hput (c :: cs)

theorem parcels_pop (h : f.Sound) (hp : f.pop k = some (b, g)) (r : ResourceId) :
    (parcels r f.lists).Perm (⟨r, k, b⟩ :: parcels r g.lists) := by
  obtain ⟨bs, front, back, hf, hg, -⟩ := exists_split_of_pop h hp
  have hrest : parcels r g.lists =
      parcels r front ++ (bs.map (fun b => ⟨r, k, b⟩) ++ parcels r back) := by
    rw [hg, parcels_append]
    split
    · rename_i hbs
      simp [hbs]
    · rw [parcels_cons]
  rw [hrest, hf, parcels_append, parcels_cons, List.map_cons, List.cons_append]
  exact List.perm_middle

theorem totalBytes_push (f : FreeLists) (k : BlockKey) (b : BlockId) :
    totalBytes (f.push k b).lists = totalBytes f.lists + k.bytes := by
  rw [totalBytes_eq_total_parcels 0, totalBytes_eq_total_parcels 0,
    total_perm _ (f.parcels_push k b 0), total_cons]
  exact Nat.add_comm _ _

theorem totalBytes_pop (h : f.Sound) (hp : f.pop k = some (b, g)) :
    totalBytes f.lists = totalBytes g.lists + k.bytes := by
  rw [totalBytes_eq_total_parcels 0, totalBytes_eq_total_parcels 0,
    total_perm _ (parcels_pop h hp 0), total_cons]
  exact Nat.add_comm _ _

theorem Sound.push (h : f.Sound) (k : BlockKey) (b : BlockId) : (f.push k b).Sound := by
  refine ⟨KeyedList.nodup_keys_put h.keys k _, ?_, ?_⟩
  · intro entry he
    unfold FreeLists.push FreeLists.blocks at he
    dsimp only at he
    cases hk : f.lists.get? k with
    | none =>
      rw [KeyedList.put_of_get?_eq_none hk, List.mem_append, List.mem_singleton] at he
      rcases he with he | rfl
      · exact h.filled entry he
      · exact List.cons_ne_nil _ _
    | some bs =>
      obtain ⟨front, back, hlists, hput, -⟩ := KeyedList.exists_split hk
      have hfilled := h.filled
      rw [hlists] at hfilled
      rw [hput, List.mem_append, List.mem_cons] at he
      rcases he with he | rfl | he
      · exact hfilled entry (List.mem_append_left _ he)
      · exact List.cons_ne_nil _ _
      · exact hfilled entry (List.mem_append_right _ (List.mem_cons_of_mem _ he))
  · rw [totalBytes_push, ← h.counted]
    rfl

theorem Sound.pop (h : f.Sound) (hp : f.pop k = some (b, g)) : g.Sound := by
  obtain ⟨bs, front, back, hf, hg, hbytes⟩ := exists_split_of_pop h hp
  have hkeys := h.keys
  have hfilled := h.filled
  rw [hf] at hkeys hfilled
  refine ⟨?_, ?_, ?_⟩
  · have hsub : List.Sublist g.lists (front ++ (k, bs) :: back) := by
      rw [hg]
      split
      · exact (List.sublist_cons_self _ _).append_left front
      · exact List.Sublist.refl _
    apply List.Nodup.sublist (hsub.map Prod.fst)
    simpa using hkeys
  · intro entry he
    rw [hg, List.mem_append] at he
    rcases he with he | he
    · exact hfilled entry (List.mem_append_left _ he)
    · split at he
      · exact hfilled entry (List.mem_append_right _ (List.mem_cons_of_mem _ he))
      · rename_i hbs
        rcases List.mem_cons.mp he with rfl | he
        · exact hbs
        · exact hfilled entry (List.mem_append_right _ (List.mem_cons_of_mem _ he))
  · have htotal := totalBytes_pop h hp
    have hcounted := h.counted
    omega

end FreeLists

end StreamMemory

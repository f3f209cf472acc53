import StreamMemory.Proofs.HighWater
import StreamMemory.Proofs.Postings
import Mathlib.Algebra.BigOperators.Group.Finset.Piecewise
import Mathlib.Algebra.Order.BigOperators.Group.Finset

/-!
# Accounts of a family of resources

A block of one resource may be released through another one that takes it. The bytes are then taken
off the wrong account, and an account stops at zero; but over the whole family, no more is taken off
than is given back. So together the accounts are never less than what callers have of the family's
blocks, as long as none of them wraps around at the limit of sizes.
-/

set_option autoImplicit false

namespace StreamMemory

namespace Machine

/-- The bytes that a call takes from the system for a resource. -/
def gained (m : Machine) (r : ResourceId) (c : Call) : Nat :=
  total Loan.bytes ((m.call c).taken r) - total Loan.bytes (m.taken r)

/-- With what a call takes from the system for a member of a family, its account is still a size. -/
def Unwrapped (family : Finset ResourceId) (m : Machine) (c : Call) : Prop :=
  ∀ r ∈ family, (m.account r).allocated.current + m.gained r c < sizeLimit

instance decidableUnwrapped (family : Finset ResourceId) (m : Machine) (c : Call) :
    Decidable (m.Unwrapped family c) :=
  inferInstanceAs
    (Decidable (∀ r ∈ family, (m.account r).allocated.current + m.gained r c < sizeLimit))

/-- The blocks that a run takes from the system for a resource in calls in which nobody is handed
one of them. -/
def withdrawn (m : Machine) (r : ResourceId) : List Call → Nat
  | [] => 0
  | c :: cs =>
    (if (m.call c).served r = m.served r then ((m.call c).taken r).length - (m.taken r).length
      else 0) + (m.call c).withdrawn r cs

/-- The bytes that callers have of the blocks of a resource after each call of a run. -/
def outstandings (m : Machine) (r : ResourceId) : List Call → List Nat
  | [] => []
  | c :: cs => (m.call c).outstanding r :: (m.call c).outstandings r cs

/-- What callers have before each call of a run, with what the call takes from the system. -/
def reaches (m : Machine) (r : ResourceId) : List Call → List Nat
  | [] => []
  | c :: cs => (m.outstanding r + m.gained r c) :: (m.call c).reaches r cs

variable {m m' : Machine} {q r : ResourceId} {c : Call} {family : Finset ResourceId} {x : Loan}

/-! ## Figures after a posting -/

theorem taken_of_obtained {e : Event} (he : e.obtained? = none)
    (h : moved m'.trace = e :: .obtained x :: moved m.trace) (r : ResourceId) :
    m'.taken r = if x.resource = r then x :: m.taken r else m.taken r := by
  have hobtained : obtained m'.trace = x :: obtained m.trace := by
    rw [← obtained_moved, h, ← obtained_moved m.trace]
    exact List.filterMap_cons_none he
  unfold taken
  rw [hobtained, List.filter_cons]
  simp only [decide_eq_true_eq]

theorem total_taken_of_obtained {e : Event} (he : e.obtained? = none)
    (h : moved m'.trace = e :: .obtained x :: moved m.trace) (r : ResourceId) :
    total Loan.bytes (m'.taken r) - total Loan.bytes (m.taken r) = x.share r := by
  rw [taken_of_obtained he h]
  unfold Loan.share
  split
  · rw [total_cons, Nat.add_sub_cancel]
  · exact Nat.sub_self _

theorem served_of_lent (h : moved m'.trace = .lent x :: .obtained x :: moved m.trace)
    (r : ResourceId) : m'.served r = m.served r + if x.resource = r then 1 else 0 := by
  unfold served
  rw [← lents_moved, h, ← lents_moved m.trace,
    show lents (.lent x :: .obtained x :: moved m.trace) = x :: lents (moved m.trace) from rfl,
    List.countP_cons]
  simp only [decide_eq_true_eq]

theorem outstanding_of_lent (h : moved m'.trace = .lent x :: .obtained x :: moved m.trace)
    (r : ResourceId) : m'.outstanding r = m.outstanding r + x.share r := by
  unfold outstanding
  rw [← onLoan_moved, h, ← onLoan_moved m.trace,
    show onLoan (.lent x :: .obtained x :: moved m.trace) = x :: onLoan (moved m.trace) from rfl,
    total_cons, Nat.add_comm]

/-- Nobody gets a block that is withdrawn. -/
theorem Withdrew.figures (h : Withdrew x m m') (r : ResourceId) :
    m'.served r = m.served r ∧ m'.outstanding r = m.outstanding r := by
  obtain ⟨l, hmoved⟩ := h.moved
  unfold served outstanding
  rw [← lents_moved, ← onLoan_moved, hmoved, ← lents_moved m.trace, ← onLoan_moved m.trace]
  exact ⟨rfl, rfl⟩

theorem figures_of_returned {l : Layout}
    (h : moved m'.trace = .returned x.block l :: .released x :: moved m.trace) (r : ResourceId) :
    m'.taken r = m.taken r ∧ m'.served r = m.served r := by
  unfold taken served
  rw [← obtained_moved, ← lents_moved, h, ← lents_moved m.trace, ← obtained_moved m.trace]
  exact ⟨rfl, rfl⟩

theorem outstanding_of_returned {l : Layout}
    (h : moved m'.trace = .returned x.block l :: .released x :: moved m.trace)
    (hf : FairReleases m'.trace) (r : ResourceId) :
    m'.outstanding r + x.share r = m.outstanding r := by
  rw [← fairReleases_moved, h] at hf
  have hx : x ∈ onLoan m.trace := onLoan_moved m.trace ▸ hf.1
  rw [← outstanding_released hx r]
  unfold outstanding
  rw [← onLoan_moved, h]
  change total _ ((onLoan (moved m.trace)).erase x) + _ = total _ ((onLoan m.trace).erase x) + _
  rw [onLoan_moved]

/-! ## Counts of blocks -/

/-- Every account counts the blocks that were taken from the system for it. -/
structure Books (family : Finset ResourceId) (m : Machine) : Prop where
  plain : ∀ r ∈ family, m.emulated? r = none
  counted : ∀ r ∈ family, (m.account r).count = (m.taken r).length

namespace Books

theorem start (family : Finset ResourceId) (env : Environment) :
    Books family (Machine.start env) := by
  refine ⟨fun _ _ => ?_, fun _ _ => ?_⟩
  · simp [Machine.start, emulated?, resource?]
  · simp [Machine.start, account, resource?, taken, obtained]

theorem call (h : Books family m) (hl : m.Circulates family c) : Books family (m.call c) := by
  have hposted := Posted.call h.plain hl
  refine ⟨hposted.plain h.plain, fun r hr => ?_⟩
  have hcounted := h.counted r hr
  cases hposted with
  | idle unmoved =>
    rw [(unmoved r hr).account, (unmoved r hr).taken]
    exact hcounted
  | served x member booked moved =>
    rw [taken_of_obtained rfl moved]
    split
    · rename_i hq
      rw [← hq, booked.account, hq]
      exact congrArg (· + 1) hcounted
    · rename_i hq
      rw [booked.account_of_ne hq]
      exact hcounted
  | withdrawn x member request streams fault withdrew =>
    obtain ⟨l, hmoved⟩ := withdrew.moved
    rw [taken_of_obtained rfl hmoved]
    split
    · rename_i hq
      rw [← hq, withdrew.booked.account, hq]
      exact congrArg (· + 1) hcounted
    · rename_i hq
      rw [withdrew.booked.account_of_ne hq]
      exact hcounted
  | returned q x l through member booked moved =>
    rw [(figures_of_returned moved r).1, ← hcounted]
    by_cases hq : q = r
    · rw [← hq, booked.account]
      rfl
    · rw [booked.account_of_ne hq]

theorem run {cs : List Call} (h : Books family m) (ho : m.Obeys (Circulates family) cs) :
    Books family (m.run cs) :=
  run_induction (fun _ _ hl hm => hm.call hl) ho h

/-- A block that is taken is handed to someone in the same call, or withdrawn. -/
theorem taken_call (h : Books family m) (hl : m.Circulates family c) (hr : r ∈ family) :
    ((m.call c).taken r).length + m.served r =
      (m.taken r).length + (m.call c).served r +
        (if (m.call c).served r = m.served r then
          ((m.call c).taken r).length - (m.taken r).length else 0) := by
  cases Posted.call h.plain hl with
  | idle unmoved =>
    rw [(unmoved r hr).served, (unmoved r hr).taken, if_pos rfl]
    omega
  | served x member booked moved =>
    rw [served_of_lent moved, taken_of_obtained rfl moved]
    by_cases hq : x.resource = r
    · rw [if_pos hq, if_pos hq, if_neg (by omega), List.length_cons]
      omega
    · rw [if_neg hq, if_neg hq, Nat.add_zero, if_pos rfl]
      omega
  | withdrawn x member request streams fault withdrew =>
    obtain ⟨l, hmoved⟩ := withdrew.moved
    rw [(withdrew.figures r).1, taken_of_obtained rfl hmoved, if_pos rfl]
    split
    · rw [List.length_cons]
      omega
    · omega
  | returned q x l through member booked moved =>
    obtain ⟨htaken, hserved⟩ := figures_of_returned moved r
    rw [htaken, hserved, if_pos rfl]
    omega

/-- Only a synchronous request takes a block that nobody gets. -/
theorem unserved (h : Books family m) (hl : m.Circulates family c) (hr : r ∈ family)
    (hserved : (m.call c).served r = m.served r) (htaken : (m.call c).taken r ≠ m.taken r) :
    ∃ bytes alignment, c = .allocate r bytes alignment ∧ m.backend? r ≠ none ∧
      m.fault = some 1 := by
  cases Posted.call h.plain hl with
  | idle unmoved => exact absurd (unmoved r hr).taken htaken
  | served x member booked moved =>
    rw [served_of_lent moved] at hserved
    rw [taken_of_obtained rfl moved] at htaken
    by_cases hq : x.resource = r
    · rw [if_pos hq] at hserved
      omega
    · exact absurd (if_neg hq) htaken
  | withdrawn x member request streams fault withdrew =>
    obtain ⟨l, hmoved⟩ := withdrew.moved
    rw [taken_of_obtained rfl hmoved] at htaken
    by_cases hq : x.resource = r
    · subst hq
      exact ⟨x.bytes, x.alignment, request, streams, fault⟩
    · exact absurd (if_neg hq) htaken
  | returned q x l through member booked moved =>
    exact absurd (figures_of_returned moved r).1 htaken

theorem taken_run {cs : List Call} (h : Books family m) (ho : m.Obeys (Circulates family) cs)
    (hr : r ∈ family) :
    ((m.run cs).taken r).length + m.served r =
        (m.taken r).length + (m.run cs).served r + m.withdrawn r cs ∧
      ((m.run cs).backend? r = none → m.backend? r = none ∧ m.withdrawn r cs = 0) := by
  induction cs generalizing m with
  | nil =>
    unfold withdrawn
    exact ⟨by simp [Nat.add_comm], fun hd => ⟨hd, rfl⟩⟩
  | cons c cs ih =>
    have hcall := h.taken_call ho.1 hr
    obtain ⟨hrun, hrest⟩ := ih (h.call ho.1) ho.2
    rw [run_cons, withdrawn]
    refine ⟨by omega, fun hd => ?_⟩
    obtain ⟨hnow, hnone⟩ := hrest hd
    have hbefore := (Posted.call h.plain ho.1).backend? hr hnow
    refine ⟨hbefore, ?_⟩
    rw [hnone]
    split
    · rename_i hserved
      have htaken : (m.call c).taken r = m.taken r := by
        by_contra hne
        obtain ⟨-, -, -, hstreams, -⟩ := h.unserved ho.1 hr hserved hne
        exact hstreams hbefore
      rw [htaken, Nat.sub_self]
    · rfl

end Books

/-! ## The bytes of the whole family -/

theorem Unwrapped.sum (h : m.Unwrapped family c) (hr : r ∈ family) {bytes : Nat}
    (hg : m.gained r c = bytes) :
    (m.account r).allocated.sum bytes = (m.account r).allocated.current + bytes := by
  subst hg
  exact Gauge.sum_of_lt (h r hr)

theorem gained_of_obtained {e : Event} (he : e.obtained? = none)
    (h : moved (m.call c).trace = e :: .obtained x :: moved m.trace) :
    m.gained x.resource c = x.bytes :=
  (total_taken_of_obtained he h x.resource).trans x.share_self

/-- The accounts of a family are together never less than what callers have of its blocks. -/
def Covered (family : Finset ResourceId) (m : Machine) : Prop :=
  FairReleases m.trace →
    ∑ r ∈ family, m.outstanding r ≤ ∑ r ∈ family, (m.account r).allocated.current

namespace Covered

theorem start (family : Finset ResourceId) (env : Environment) :
    Covered family (Machine.start env) := by
  intro _
  simp [Machine.start, outstanding, onLoan]

/-- No account may fall behind what callers have of its blocks. -/
theorem step (h : Covered family m) (hf : FairReleases m'.trace → FairReleases m.trace)
    (hstep : FairReleases m'.trace → ∀ r ∈ family,
      m'.outstanding r + (m.account r).allocated.current ≤
        (m'.account r).allocated.current + m.outstanding r) : Covered family m' := by
  intro hfair
  have hbefore := h (hf hfair)
  have hsum := Finset.sum_le_sum (hstep hfair)
  rw [Finset.sum_add_distrib, Finset.sum_add_distrib] at hsum
  omega

/-- What is taken off the account of the wrong member is taken off the sum, or less if that account
stops at zero. -/
theorem giveBack (h : Covered family m) (hq : q ∈ family) (hx : x.resource ∈ family) {l : Layout}
    (hb : Rebooked q ((m.account q).giveBack x.bytes) m m')
    (hm : moved m'.trace = .returned x.block l :: .released x :: moved m.trace)
    (hf : FairReleases m'.trace → FairReleases m.trace) : Covered family m' := by
  intro hfair
  have hcurrent (r : ResourceId) : (m.account r).allocated.current ≤
      (m'.account r).allocated.current + if q = r then x.bytes else 0 := by
    split
    · rename_i hqr
      rw [← hqr, hb.account]
      exact Nat.le_add_of_sub_le (Nat.le_refl _)
    · rename_i hqr
      rw [hb.account_of_ne hqr]
      exact Nat.le_refl _
  have hlost : ∑ r ∈ family, m.outstanding r = ∑ r ∈ family, m'.outstanding r + x.bytes := by
    rw [← Finset.sum_congr rfl fun r _ => outstanding_of_returned hm hfair r,
      Finset.sum_add_distrib]
    unfold Loan.share
    rw [Finset.sum_ite_eq, if_pos hx]
  have htaken : ∑ r ∈ family, (m.account r).allocated.current ≤
      ∑ r ∈ family, (m'.account r).allocated.current + x.bytes := by
    refine (Finset.sum_le_sum fun r _ => hcurrent r).trans_eq ?_
    rw [Finset.sum_add_distrib, Finset.sum_ite_eq, if_pos hq]
  have hcovered := h (hf hfair)
  omega

theorem call (h : Covered family m) (hp : ∀ r ∈ family, m.emulated? r = none)
    (hl : m.Circulates family c) (hu : m.Unwrapped family c) : Covered family (m.call c) := by
  have hposted := Posted.call hp hl
  have hfair (r : ResourceId) (hr : r ∈ family) := hposted.fair hr
  cases hposted with
  | idle unmoved =>
    rcases family.eq_empty_or_nonempty with rfl | ⟨q, hq⟩
    · exact fun _ => Nat.le_refl 0
    · refine h.step (hfair q hq) fun hf r hr => ?_
      rw [(unmoved r hr).account, ((unmoved r hr).outstanding hf).2, Nat.add_comm]
  | served x member booked moved =>
    have hsum := hu.sum member (gained_of_obtained rfl moved)
    refine h.step (hfair _ member) fun hf r hr => ?_
    rw [outstanding_of_lent moved]
    by_cases hq : x.resource = r
    · subst hq
      rw [booked.account, Loan.share_self]
      change _ ≤ (m.account x.resource).allocated.sum x.bytes + _
      omega
    · rw [booked.account_of_ne hq, Loan.share_of_ne hq]
      omega
  | withdrawn x member request streams fault withdrew =>
    obtain ⟨l, hmoved⟩ := withdrew.moved
    have hsum := hu.sum member (gained_of_obtained rfl hmoved)
    refine h.step (hfair _ member) fun hf r hr => ?_
    rw [(withdrew.figures r).2]
    by_cases hq : x.resource = r
    · subst hq
      rw [withdrew.booked.account]
      change _ ≤ (m.account x.resource).allocated.sum x.bytes - x.bytes + _
      omega
    · rw [withdrew.booked.account_of_ne hq]
      omega
  | returned q x l through member booked moved =>
    exact h.giveBack through member booked moved (hfair q through)

theorem run {cs : List Call} (h : Covered family m) (hb : Books family m)
    (ho : m.Obeys (Circulates family) cs) (hu : m.Obeys (Unwrapped family) cs) :
    Covered family (m.run cs) := by
  induction cs generalizing m with
  | nil => exact h
  | cons c cs ih => exact ih (h.call hb.plain ho.1 hu.1) (hb.call ho.1) ho.2 hu.2

end Covered

/-! ## A member whose blocks come back to it -/

/-- A resource without free lists has in its account what callers have of its blocks. -/
structure Apart (r : ResourceId) (m : Machine) : Prop where
  plain : m.emulated? r = none
  exact_current : FairReleases m.trace → (m.account r).allocated.current = m.outstanding r
  current_le_peak : (m.account r).allocated.current ≤ (m.account r).allocated.peak

/-- A call takes bytes from the system on the account of a resource, and then the account gives bytes
back. -/
structure Turnover (r : ResourceId) (c : Call) (m : Machine) (up down : Nat) : Prop where
  gained : m.gained r c = up
  current : ((m.call c).account r).allocated.current =
    (m.account r).allocated.current + up - down
  peak : ((m.call c).account r).allocated.peak =
    max (m.account r).allocated.peak ((m.account r).allocated.current + up)
  outstanding : FairReleases (m.call c).trace →
    (m.call c).outstanding r + down = m.outstanding r + up
  /-- A resource without streams does not do both at once. -/
  direct : (m.call c).backend? r = none → up = 0 ∨ down = 0

namespace Apart

theorem start (r : ResourceId) (env : Environment) : Apart r (Machine.start env) := by
  refine ⟨?_, fun _ => ?_, ?_⟩
  · simp [Machine.start, emulated?, resource?]
  · simp [Machine.start, account, resource?, outstanding, onLoan]
  · simp [Machine.start, account, resource?]

theorem members (h : Apart r m) : ∀ q ∈ ({r} : Finset ResourceId), m.emulated? q = none := by
  intro q hq
  rw [Finset.mem_singleton.mp hq]
  exact h.plain

/-- Every call takes some bytes and then gives some back. -/
theorem exists_turnover (h : Apart r m) (hl : m.Circulates {r} c) (hu : m.Unwrapped {r} c) :
    ∃ up down, Turnover r c m up down := by
  have hposted := Posted.call h.members hl
  have hdirect := hposted.backend? (Finset.mem_singleton_self r)
  have hidle : (m.account r).allocated.peak =
      max (m.account r).allocated.peak ((m.account r).allocated.current + 0) :=
    (Nat.max_eq_left h.current_le_peak).symm
  cases hposted with
  | idle unmoved =>
    have hm := unmoved r (Finset.mem_singleton_self r)
    refine ⟨0, 0, ?_, ?_, ?_, fun hf => congrArg (· + 0) (hm.outstanding hf).2, fun _ => .inl rfl⟩
    · unfold gained
      rw [hm.taken, Nat.sub_self]
    · rw [hm.account]
      rfl
    · rw [hm.account]
      exact hidle
  | served x member booked moved =>
    obtain rfl := Finset.mem_singleton.mp member
    have hgained := gained_of_obtained rfl moved
    have hsum := hu.sum member hgained
    refine ⟨x.bytes, 0, hgained, ?_, ?_, fun _ => ?_, fun _ => .inr rfl⟩
    · rw [booked.account]
      exact hsum
    · rw [booked.account, ← hsum]
      rfl
    · rw [outstanding_of_lent moved, Loan.share_self, Nat.add_zero]
  | withdrawn x member request streams fault withdrew =>
    obtain rfl := Finset.mem_singleton.mp member
    obtain ⟨l, hmoved⟩ := withdrew.moved
    have hgained := gained_of_obtained rfl hmoved
    have hsum := hu.sum member hgained
    refine ⟨x.bytes, x.bytes, hgained, ?_, ?_, fun _ => ?_, fun hd => absurd (hdirect hd) streams⟩
    · rw [withdrew.booked.account, ← hsum]
      rfl
    · rw [withdrew.booked.account, ← hsum]
      rfl
    · rw [(withdrew.figures x.resource).2]
  | returned q x l through member booked moved =>
    obtain rfl := Finset.mem_singleton.mp through
    have hshare : x.share q = x.bytes := if_pos (Finset.mem_singleton.mp member)
    refine ⟨0, x.bytes, ?_, ?_, ?_, fun hf => ?_, fun _ => .inl rfl⟩
    · unfold gained
      rw [(figures_of_returned moved q).1, Nat.sub_self]
    · rw [booked.account]
      rfl
    · rw [booked.account]
      exact hidle
    · rw [← hshare, outstanding_of_returned moved hf q, Nat.add_zero]

/-- The peak of an account is the largest amount that it ever had. -/
theorem call (h : Apart r m) (hl : m.Circulates {r} c) (hu : m.Unwrapped {r} c) :
    Apart r (m.call c) ∧ (FairReleases (m.call c).trace → FairReleases m.trace ∧
      ((m.call c).account r).allocated.peak =
        max (m.account r).allocated.peak (m.outstanding r + m.gained r c)) ∧
      ((m.call c).backend? r = none → m.backend? r = none ∧
        ((m.call c).account r).allocated.peak =
          max (m.account r).allocated.peak ((m.call c).account r).allocated.current) := by
  have hr : r ∈ ({r} : Finset ResourceId) := Finset.mem_singleton_self r
  have hposted := Posted.call h.members hl
  have hle := h.current_le_peak
  obtain ⟨up, down, hturnover⟩ := h.exists_turnover hl hu
  have hcurrent := hturnover.current
  have hpeak := hturnover.peak
  refine ⟨⟨hposted.plain h.members r hr, fun hf => ?_, by omega⟩, fun hf => ⟨hposted.fair hr hf, ?_⟩,
    fun hd => ⟨hposted.backend? hr hd, ?_⟩⟩
  · have hbefore := h.exact_current (hposted.fair hr hf)
    have hmoved := hturnover.outstanding hf
    omega
  · rw [hturnover.gained, ← h.exact_current (hposted.fair hr hf)]
    exact hpeak
  · have hone := hturnover.direct hd
    omega

theorem run {cs : List Call} (h : Apart r m) (ho : m.Obeys (Circulates {r}) cs)
    (hu : m.Obeys (Unwrapped {r}) cs) :
    Apart r (m.run cs) ∧ (FairReleases (m.run cs).trace → FairReleases m.trace ∧
      ((m.run cs).account r).allocated.peak =
        max (m.account r).allocated.peak (highest (m.reaches r cs)) ∧
      ((m.run cs).backend? r = none → m.backend? r = none ∧
        ((m.run cs).account r).allocated.peak =
          max (m.account r).allocated.peak (highest (m.outstandings r cs)))) := by
  induction cs generalizing m with
  | nil =>
    refine ⟨h, fun hf => ⟨hf, ?_, fun hd => ⟨hd, ?_⟩⟩⟩
    · rw [reaches, highest_nil, Nat.max_zero]
      rfl
    · rw [outstandings, highest_nil, Nat.max_zero]
      rfl
  | cons c cs ih =>
    obtain ⟨hcall, hreach, hpeak⟩ := h.call ho.1 hu.1
    obtain ⟨hrun, hrest⟩ := ih hcall ho.2 hu.2
    refine ⟨hrun, fun hf => ?_⟩
    obtain ⟨hnow, hlast, hdirect⟩ := hrest hf
    obtain ⟨hbefore, hfirst⟩ := hreach hnow
    refine ⟨hbefore, ?_, fun hd => ?_⟩
    · rw [run_cons, hlast, hfirst, reaches, highest_cons, Nat.max_assoc]
    · obtain ⟨hd', hrise⟩ := hdirect hd
      obtain ⟨hd'', hstep⟩ := hpeak hd'
      refine ⟨hd'', ?_⟩
      rw [run_cons, hrise, hstep, hcall.exact_current hnow, outstandings, highest_cons,
        Nat.max_assoc]

end Apart

/-! ## Failed requests -/

/-- What becomes of accounts if nobody is handed a block of a member of a family. -/
structure KeepsAccounts (family : Finset ResourceId) (r : ResourceId) (m : Machine) : Prop where
  direct : m.backend? r = none → ∀ bytes alignment f m',
    m.allocate r bytes alignment = (.error f, m') → m' = m
  /-- A block that came before the second synchronization failed is withdrawn. -/
  synchronous : ∀ bytes alignment f m', m.allocate r bytes alignment = (.error f, m') →
    (∀ q, m'.account q = m.account q) ∨
      m.backend? r ≠ none ∧ m.fault = some 1 ∧ ∃ b, Withdrew ⟨b, r, bytes, alignment⟩ m m'
  asynchronous : ∀ backend bytes alignment s f m', m.backend? r = some backend →
    backend.allocateAsync m bytes alignment s = (.error f, m') → ∀ q, m'.account q = m.account q
  /-- Only a request whose second synchronization fails takes a block that nobody gets. -/
  unserved : ∀ c, m.Circulates family c → (m.call c).served r = m.served r →
    (m.call c).taken r ≠ m.taken r → ∃ bytes alignment, c = .allocate r bytes alignment ∧
      m.backend? r ≠ none ∧ m.fault = some 1

theorem Books.keepsAccounts (hbooks : Books family m) (hr : r ∈ family) :
    KeepsAccounts family r m := by
  have hp := hbooks.plain r hr
  refine ⟨fun hd bytes alignment f m' h => ?_, fun bytes alignment f m' h => ?_,
    fun backend bytes alignment s f m' hb h q => ?_, fun _ hl => hbooks.unserved hl hr⟩
  · rcases allocate_plain hp bytes alignment with
      ⟨f', n, e, -, hsame⟩ | ⟨b, n, e, -⟩ | ⟨f', b, n, e, hstreams, -⟩
    · rw [e] at h
      cases h
      exact hsame hd
    · rw [e] at h
      cases h
    · exact absurd hd hstreams
  · rcases allocate_plain hp bytes alignment with
      ⟨f', n, e, hstill, -⟩ | ⟨b, n, e, -⟩ | ⟨f', b, n, e, hstreams, hfault, hwithdrew⟩
    · rw [e] at h
      cases h
      exact .inl hstill.account
    · rw [e] at h
      cases h
    · rw [e] at h
      cases h
      exact .inr ⟨hstreams, hfault, b, hwithdrew⟩
  · rcases backend?_eq_some hb with ⟨e, he, -⟩ | ⟨heap, -, rfl⟩
    · rw [hp] at he
      cases he
    · rcases allocateAsync_recorded m r bytes alignment s with ⟨f', n, e, hstill⟩ | ⟨b, n, e, -⟩
      · rw [e] at h
        cases h
        exact hstill.account q
      · rw [e] at h
        cases h

/-- Whatever members of a family blocks are released through, the accounts of the family together
are never less than what callers have of its blocks, unless one of them wraps around. Every account
counts the blocks that were handed out and those that were withdrawn, which a member without streams
never does. A member that neither takes blocks of others nor has its blocks taken by them has in its
account just what callers have of its blocks, and its peak is the largest such amount, with the
blocks that were withdrawn. -/
theorem family_accounts {env : Environment} {family : Finset ResourceId} {cs : List Call}
    {m : Machine} (hm : m = (Machine.start env).run cs)
    (hlaw : (Machine.start env).Obeys (Circulates family) cs) (hfair : FairReleases m.trace) :
    ((Machine.start env).Obeys (Unwrapped family) cs →
      ∑ r ∈ family, m.outstanding r ≤ ∑ r ∈ family, (m.account r).allocated.current) ∧
    ∀ r ∈ family,
      (m.account r).count = m.served r + (Machine.start env).withdrawn r cs ∧
      (m.backend? r = none → (m.account r).count = m.served r) ∧
      KeepsAccounts family r m ∧
      ((Machine.start env).Obeys (Circulates {r}) cs →
        (Machine.start env).Obeys (Unwrapped {r}) cs →
        (m.account r).allocated.current = m.outstanding r ∧
        (m.account r).allocated.peak = highest ((Machine.start env).reaches r cs) ∧
        (m.backend? r = none →
          (m.account r).allocated.peak = highest ((Machine.start env).outstandings r cs))) := by
  subst hm
  have hempty := Books.start family env
  have hbooks := hempty.run hlaw
  refine ⟨fun hsizes => (Covered.start family env).run hempty hlaw hsizes hfair, fun r hr => ?_⟩
  have hcounted := hbooks.counted r hr
  obtain ⟨htaken, hdirect⟩ := hempty.taken_run hlaw hr
  have hnothing : ((Machine.start env).taken r).length = 0 ∧ (Machine.start env).served r = 0 := by
    simp [Machine.start, taken, served, obtained, lents]
  refine ⟨by omega, fun hd => ?_, hbooks.keepsAccounts hr,
    fun hapart hsizes => ?_⟩
  · have hnone := (hdirect hd).2
    omega
  · obtain ⟨hkept, hrest⟩ := (Apart.start r env).run hapart hsizes
    obtain ⟨-, hpeak, hrise⟩ := hrest hfair
    refine ⟨hkept.exact_current hfair, ?_, fun hd => ?_⟩
    · rw [hpeak]
      exact Nat.zero_max _
    · rw [(hrise hd).2]
      exact Nat.zero_max _

/-- Four resources that ask the system for every block. A block of the first is released through the
second, which takes blocks of every resource of its kind; the other two keep to themselves, and an
allocation of the last fails after its block was taken. -/
def mingled : List Call :=
  [.build .system, .build .lenient, .build (.devicePinned ⟨1⟩), .build .recorded, .allocate 0 16 8,
    .allocate 1 8 8, .allocate 2 4 4, .release 1 ⟨0, 0, 16, 8⟩, .allocate 2 32 8,
    .release 2 ⟨2, 2, 4, 4⟩, .allocateAsync 3 ⟨5, 8, 8⟩, .failSynchronizeAfter (some 1),
    .allocate 3 64 8]

/-- The second account has stopped at zero, though callers have 8 bytes of its blocks. -/
theorem family_accounts_mingled :
    let m := (start {}).run mingled
    m.accepts 1 0 = true ∧ (m.account 1).allocated.current = 0 ∧ m.outstanding 1 = 8 ∧
      ∑ r ∈ {0, 1, 2, 3}, m.outstanding r ≤ ∑ r ∈ {0, 1, 2, 3}, (m.account r).allocated.current ∧
      (m.account 2).count = 2 ∧ (m.account 2).allocated = ⟨32, 36⟩ ∧
      (m.account 3).count = 2 ∧ m.served 3 = 1 ∧ (m.account 3).allocated = ⟨8, 72⟩ := by
  intro m
  obtain ⟨hcovered, hmembers⟩ := family_accounts (m := m) rfl
    (show (start {}).Obeys (Circulates {0, 1, 2, 3}) mingled by decide +kernel)
    (by decide +kernel)
  obtain ⟨-, hcount, -, hapart⟩ := hmembers 2 (by decide)
  obtain ⟨hcurrent, -, hpeak⟩ := hapart (by decide +kernel) (by decide +kernel)
  obtain ⟨hcount', -, -, hapart'⟩ := hmembers 3 (by decide)
  obtain ⟨hcurrent', hpeak', -⟩ := hapart' (by decide +kernel) (by decide +kernel)
  have hdirect : m.backend? 2 = none := rfl
  have hserved : m.served 2 = 2 := by decide +kernel
  have hserved' : m.served 3 = 1 := by decide +kernel
  have hwithdrawn : (start {}).withdrawn 3 mingled = 1 := by decide +kernel
  have hgauge (r : ResourceId) : (m.account r).allocated =
      ⟨(m.account r).allocated.current, (m.account r).allocated.peak⟩ := rfl
  have hhighest : highest ((start {}).outstandings 2 mingled) = 36 := by decide +kernel
  have hhighest' : highest ((start {}).reaches 3 mingled) = 72 := by decide +kernel
  have hout : m.outstanding 2 = 32 := by decide +kernel
  have hout' : m.outstanding 3 = 8 := by decide +kernel
  refine ⟨by decide +kernel, by decide +kernel, by decide +kernel, hcovered (by decide +kernel),
    (hcount hdirect).trans hserved, ?_, ?_, hserved', ?_⟩
  · rw [hgauge, hcurrent, hpeak hdirect, hout, hhighest]
  · rw [hcount', hserved', hwithdrawn]
  · rw [hgauge, hcurrent', hpeak', hout', hhighest']

/-! ## Accounts that go astray -/

/-- The synchronization after the next one will fail. -/
def faltering : Machine := (start {}).run [.build .recorded, .failSynchronizeAfter (some 1)]

/-- A block of the first resource is taken, and released through the second. -/
def lap (b : BlockId) : List Call := [.allocate 0 (2 ^ 46) 8, .release 1 ⟨b, 0, 2 ^ 46, 8⟩]

def laps : Nat → List Call
  | 0 => []
  | n + 1 => laps n ++ lap n

def unlapped : Machine := (start {}).run [.build .system, .build .lenient]

/-- After so many laps the account of the first resource is that much too high, and callers have
nothing. -/
structure Lapped (n : Nat) (m : Machine) : Prop where
  environment : m.environment = {}
  blocks : m.memory.blocks.length = n
  idle : onLoan m.trace = []
  fair : FairReleases m.trace
  resources : ∃ h h' : Heap, m.resources = [some (.system h), some (.lenient h')] ∧
    h.allocated.current = n * 2 ^ 46 ∧ h'.allocated.current = 0

namespace Lapped

theorem unlapped : Lapped 0 unlapped :=
  ⟨rfl, rfl, rfl, trivial, {}, {}, rfl, rfl, rfl⟩

/-- The block of the next lap. -/
theorem allocate {n : Nat} (h : Lapped n m) :
    ∃ heap heap' : Heap, heap.allocated.current = n * 2 ^ 46 ∧ heap'.allocated.current = 0 ∧
      m.call (.allocate 0 (2 ^ 46) 8) = { m with
        resources := [some (.system (heap.take (2 ^ 46))), some (.lenient heap')]
        memory := ⟨m.memory.blocks ++ [⟨⟨2 ^ 46, 8⟩, .zero⟩]⟩
        trace := .lent ⟨n, 0, 2 ^ 46, 8⟩ :: .obtained ⟨n, 0, 2 ^ 46, 8⟩ :: m.trace } := by
  obtain ⟨henvironment, hblocks, -, -, heap, heap', hresources, hcurrent, hzero⟩ := h
  refine ⟨heap, heap', hcurrent, hzero, ?_⟩
  obtain ⟨streams, streamCount, resources, memory, environment, fault, trace⟩ := m
  dsimp only at henvironment hblocks hresources
  subst henvironment hblocks hresources
  rfl

theorem lap {n : Nat} (h : Lapped n m) (hn : (n + 1) * 2 ^ 46 < sizeLimit) :
    Lapped (n + 1) (m.run (lap n)) := by
  obtain ⟨heap, heap', hcurrent, hzero, e⟩ := h.allocate
  have hsum : heap.allocated.sum (2 ^ 46) = (n + 1) * 2 ^ 46 := by
    rw [Gauge.sum_of_lt (by omega), hcurrent, Nat.succ_mul]
  rw [Machine.lap, run_cons, e]
  refine ⟨h.environment, ?_, ?_, ⟨List.mem_cons_self, h.fair⟩,
    heap.take (2 ^ 46), heap'.giveBack (2 ^ 46), rfl, hsum, ?_⟩
  · exact (List.length_append).trans (congrArg (· + 1) h.blocks)
  · exact (List.erase_cons_head ..).trans h.idle
  · exact (congrArg (· - 2 ^ 46) hzero).trans (Nat.zero_sub _)

theorem laps {n : Nat} (hn : n * 2 ^ 46 < sizeLimit) :
    Lapped n (Machine.unlapped.run (laps n)) := by
  induction n with
  | zero => exact unlapped
  | succ n ih =>
    have hless : n * 2 ^ 46 < sizeLimit :=
      Nat.lt_of_le_of_lt (Nat.mul_le_mul_right _ n.le_succ) hn
    rw [Machine.laps, run_append]
    exact (ih hless).lap hn

/-- If the account of the first resource wraps around now, it is behind what callers have. -/
theorem behind {n : Nat} (h : Lapped n m) (hn : (n * 2 ^ 46 + 2 ^ 46) % sizeLimit = 0)
    (hm : m' = m.call (.allocate 0 (2 ^ 46) 8)) :
    FairReleases m'.trace ∧ m'.accepts 1 0 = true ∧
      ∑ r ∈ {0, 1}, (m'.account r).allocated.current < ∑ r ∈ {0, 1}, m'.outstanding r := by
  obtain ⟨heap, heap', hcurrent, hzero, e⟩ := h.allocate
  have hwrapped : heap.allocated.sum (2 ^ 46) = 0 := by
    unfold Gauge.sum
    rw [hcurrent]
    exact hn
  have hfirst : (m'.account 0).allocated.current = 0 := by
    rw [hm, e]
    exact hwrapped
  have hsecond : (m'.account 1).allocated.current = 0 := by
    rw [hm, e]
    exact hzero
  have hout : onLoan m'.trace = [⟨n, 0, 2 ^ 46, 8⟩] := by
    rw [hm, e]
    exact congrArg (_ :: ·) h.idle
  have hpair (f : ResourceId → Nat) : ∑ r ∈ {0, 1}, f r = f 0 + f 1 :=
    Finset.sum_pair Nat.zero_ne_one
  refine ⟨?_, ?_, ?_⟩
  · rw [hm, e]
    exact h.fair
  · rw [hm, e]
    rfl
  · rw [hpair, hpair, hfirst, hsecond]
    unfold outstanding
    rw [hout]
    simp [total, Loan.share]

end Lapped

/-- After so many laps one more block is taken. -/
def overrun (n : Nat) : List Call :=
  [.build .system, .build .lenient] ++ (laps n ++ [.allocate 0 (2 ^ 46) 8])

theorem run_overrun (n : Nat) : (start {}).run (overrun n) =
    (unlapped.run (laps n)).call (.allocate 0 (2 ^ 46) 8) := by
  unfold overrun
  rw [run_append, run_append]
  rfl

theorem circulates_overrun (n : Nat) : (start {}).Obeys (Circulates {0, 1}) (overrun n) := by
  have hlaps (m : Machine) : m.Obeys (Circulates {0, 1}) (laps n) := by
    induction n with
    | zero => trivial
    | succ n ih => exact obeys_append.mpr ⟨ih, trivial, by simp [Circulates], trivial⟩
  exact obeys_append.mpr ⟨by decide, obeys_append.mpr ⟨hlaps _, trivial, trivial⟩⟩

/-- A failed allocation can change the count and the peak of a member, and an account that wraps
around can leave a family with less than what callers have of its blocks. -/
theorem accounts_astray :
    ((faltering.allocate 0 8 8).1.isOk = false ∧ faltering.account 0 = {} ∧
      (faltering.allocate 0 8 8).2.account 0 = ⟨⟨0, 8⟩, 1⟩ ∧
      (faltering.call (.allocate 0 8 8)).served 0 = 0) ∧
    let m := (start {}).run (overrun (2 ^ 18 - 1))
    (start {}).Obeys (Circulates {0, 1}) (overrun (2 ^ 18 - 1)) ∧ FairReleases m.trace ∧
      m.accepts 1 0 = true ∧
      ∑ r ∈ {0, 1}, (m.account r).allocated.current < ∑ r ∈ {0, 1}, m.outstanding r :=
  ⟨by decide +kernel, circulates_overrun _,
    (Lapped.laps (by decide)).behind (by decide) (run_overrun _)⟩

end Machine

end StreamMemory

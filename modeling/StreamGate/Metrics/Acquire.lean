import StreamGate.Metrics.Registry
import StreamGate.Lib.Runs

/-!
# Handing out slots

`acquireSlot` run alone, in every state that calls of `acquireSlot` and `releaseSlot` lead to.  The copy of the mask
that the second word is searched with is the first word, so half of the slots are never handed out
(`handsOut_iff`).
-/

namespace StreamGate.Metrics

open StreamGate.Lib

namespace ThreadLocalRegistry

variable {reg : ThreadLocalRegistry} {mask : BitVec 64} {m id : ℕ} {is : List ℕ}

/-- A slot taken: its bit is set, and it is cleared for reuse. -/
def claimed (reg : ThreadLocalRegistry) (m i : ℕ) : ThreadLocalRegistry :=
  (reg.setMask m (reg._active_mask m ||| BitVec.twoPow 64 i)).update 0 (.slots (m * 64 + i))

/-- Nothing is tried where the copy of the mask has no clear bit. -/
theorem search_full (m : ℕ) (h : ∀ i ∈ is, i ∈ setBits mask) : search m is mask = .ret none := by
  induction is with
  | nil => rfl
  | cons i is ih =>
    have hi : i ∈ setBits mask := h i (by simp)
    rw [search, if_neg, ih fun i hi => h i (List.mem_cons_of_mem _ hi)]
    rw [and_twoPow_eq_zero (lt_of_mem_setBits hi)]
    exact not_not_intro hi

/-- With an exact copy of the mask, the first clear bit is taken. -/
theorem search_run (reg : ThreadLocalRegistry) (m : ℕ) {is : List ℕ} (h : ∀ i ∈ is, i < 64) :
    (∀ i ∈ is, i ∈ setBits (reg._active_mask m)) ∨
    ∃ i < 64, i ∉ setBits (reg._active_mask m) ∧
      (search m is (reg._active_mask m)).run handle reg = (some (m * 64 + i), reg.claimed m i) := by
  induction is with
  | nil => exact .inl (by simp)
  | cons i is ih =>
    have hi : i < 64 := h i (by simp)
    by_cases hmem : i ∈ setBits (reg._active_mask m)
    · have hskip : search m (i :: is) (reg._active_mask m) = search m is (reg._active_mask m) := by
        rw [search, if_neg]
        rw [and_twoPow_eq_zero hi]
        exact not_not_intro hmem
      rw [hskip]
      rcases ih fun i hi => h i (List.mem_cons_of_mem _ hi) with hall | hfound
      · exact .inl (List.forall_mem_cons.2 ⟨hmem, hall⟩)
      · exact .inr hfound
    · have hclear : reg._active_mask m &&& BitVec.twoPow 64 i = 0 := (and_twoPow_eq_zero hi).2 hmem
      refine .inr ⟨i, hi, hmem, ?_⟩
      rw [search, if_pos hclear, Prog.run_exec, handle]
      dsimp only
      rw [if_pos hclear]
      rfl

/-- **`acquireSlot` run alone** takes a slot of the first word, or none. -/
theorem acquireSlot_run (reg : ThreadLocalRegistry) :
    ((∀ i < 64, i ∈ setBits (reg._active_mask 0)) ∧ acquireSlot.run handle reg = (none, reg)) ∨
    ∃ i < 64, i ∉ setBits (reg._active_mask 0) ∧ acquireSlot.run handle reg = (some i, reg.claimed 0 i) := by
  rcases search_run reg 0 (fun i (hi : i ∈ List.range 64) => List.mem_range.1 hi) with hfull | ⟨i, hi, hclear, hrun⟩
  · refine .inl ⟨fun i hi => hfull i (List.mem_range.2 hi), ?_⟩
    -- for the second word the copy is the first word again
    simp only [acquireSlot, searchWords, Prog.run_exec, handle, search_full _ hfull, Prog.ret_bind, Prog.run_ret]
  · refine .inr ⟨i, hi, hclear, ?_⟩
    simp only [acquireSlot, searchWords, Prog.run_exec, handle, Prog.run_bind, hrun, Prog.run_ret]
    rw [Nat.zero_mul, Nat.zero_add]

theorem activeSlots_releaseSlot (hid : id < 128) :
    ((releaseSlot id).run handle reg).2.activeSlots = reg.activeSlots.erase id := by
  have hslot : id / 64 * 64 + id % 64 = id := by omega
  rw [releaseSlot, if_neg (by rw [kMaxWorkers]; omega)]
  simp only [Prog.run_exec, Prog.run_ret, handle]
  rw [activeSlots_fetch_and (by omega), hslot, activeSlots_update, activeSlots_update]

/-- What is expected of a call run alone. -/
structure HandsOut (reg : ThreadLocalRegistry) : Prop where
  none : (acquireSlot.run handle reg).1 = none → reg.activeSlots = Finset.range kMaxWorkers
  some : ∀ id, (acquireSlot.run handle reg).1 = some id → id ∈ Finset.range kMaxWorkers \ reg.activeSlots ∧
    (acquireSlot.run handle reg).2.activeSlots = insert id reg.activeSlots

/-- The slots of the first word are its bits. -/
theorem first_mem_activeSlots (reg : ThreadLocalRegistry) {i : ℕ} (hi : i < 64) :
    i ∈ reg.activeSlots ↔ i ∈ setBits (reg._active_mask 0) := by
  rw [← bit_mem_activeSlots reg (by decide : 0 < 2) hi, Nat.zero_mul, Nat.zero_add]

theorem activeSlots_claimed {i : ℕ} (hi : i < 64) : (reg.claimed 0 i).activeSlots = insert i reg.activeSlots := by
  rw [claimed, activeSlots_update, activeSlots_fetch_or (by decide) hi, Nat.zero_mul, Nat.zero_add]

theorem first_full : Finset.range 64 ⊆ reg.activeSlots ↔ ∀ i < 64, i ∈ setBits (reg._active_mask 0) := by
  constructor
  · exact fun h i hi => (first_mem_activeSlots reg hi).1 (h (Finset.mem_range.2 hi))
  · intro h i hi
    rw [Finset.mem_range] at hi
    exact (first_mem_activeSlots reg hi).2 (h i hi)

/-- It is met where the first word has a clear bit, or all slots are in use. -/
theorem handsOut_iff_first (reg : ThreadLocalRegistry) : reg.HandsOut ↔
    ¬ Finset.range 64 ⊆ reg.activeSlots ∨ reg.activeSlots = Finset.range kMaxWorkers := by
  rw [first_full]
  rcases acquireSlot_run reg with ⟨hfull, hrun⟩ | ⟨i, hi, hclear, hrun⟩
  · rw [or_iff_right (not_not_intro hfull)]
    constructor
    · exact fun h => h.none (by rw [hrun])
    · refine fun h => ⟨fun _ => h, fun id hid => ?_⟩
      rw [hrun] at hid
      cases hid
  · refine iff_of_true ⟨fun hnone => ?_, fun id hid => ?_⟩ (.inl fun h => hclear (h i hi))
    · rw [hrun] at hnone
      cases hnone
    · rw [hrun] at hid ⊢
      obtain rfl := Option.some.inj hid
      have hfree : i ∉ reg.activeSlots := fun h => hclear ((first_mem_activeSlots reg hi).1 h)
      have hrange : i ∈ Finset.range kMaxWorkers := Finset.mem_range.2 (by rw [kMaxWorkers]; omega)
      exact ⟨Finset.mem_sdiff.2 ⟨hrange, hfree⟩, activeSlots_claimed hi⟩

end ThreadLocalRegistry

/-! ### Runs of calls -/

/-- The registry, and the slots that have been handed out and not given back. -/
structure Workers where
  reg : ThreadLocalRegistry := {}
  held : Finset ℕ := ∅

inductive Op where
  | acquire
  | release (id : ℕ)

namespace Workers

open ThreadLocalRegistry

/-- A call of `acquireSlot` has returned. -/
def acquired (s : Workers) (r : Option ℕ × ThreadLocalRegistry) : Workers where
  reg := r.2
  held := r.1.elim s.held (insert · s.held)

def step : Op → Workers → Option Workers
  | .acquire, s => some (s.acquired (acquireSlot.run handle s.reg))
  | .release id, s =>
    if id ∈ s.held then some { reg := ((releaseSlot id).run handle s.reg).2, held := s.held.erase id } else none

variable {s s' : Workers} {os : List Op}

/-- The bits are those of the slots that are held, all of the first word. -/
structure Inv (s : Workers) : Prop where
  active : s.reg.activeSlots = s.held
  first : s.held ⊆ Finset.range 64

theorem Inv.first_full (h : Inv s) : Finset.range 64 ⊆ s.reg.activeSlots ↔ 64 ≤ s.held.card := by
  rw [h.active]
  constructor
  · intro hsub
    simpa using Finset.card_le_card hsub
  · intro hcard
    exact (Finset.eq_of_subset_of_card_le h.first (by simpa using hcard)).ge

/-- One more slot is held, as long as the first word has one. -/
theorem Inv.acquire (h : Inv s) (hs : step .acquire s = some s') :
    Inv s' ∧ (s.held.card < 64 → s'.held.card = s.held.card + 1) := by
  obtain rfl : s.acquired (acquireSlot.run handle s.reg) = s' := Option.some.inj hs
  rcases acquireSlot_run s.reg with ⟨hfull, hrun⟩ | ⟨i, hi, hclear, hrun⟩
  · rw [hrun]
    refine ⟨h, fun hcard => ?_⟩
    exact absurd (h.first_full.1 (ThreadLocalRegistry.first_full.2 hfull)) (by omega)
  · have hnew : i ∉ s.held := by
      rw [← h.active, first_mem_activeSlots s.reg hi]
      exact hclear
    rw [hrun]
    refine ⟨⟨?_, ?_⟩, fun _ => Finset.card_insert_of_notMem hnew⟩
    · dsimp only [acquired, Option.elim]
      rw [activeSlots_claimed hi, h.active]
    · exact Finset.insert_subset (Finset.mem_range.2 hi) h.first

theorem Inv.release {id : ℕ} (h : Inv s) (hs : step (.release id) s = some s') : Inv s' := by
  simp only [step] at hs
  split at hs
  · rename_i hid
    obtain rfl := Option.some.inj hs
    have hlt : id < 64 := Finset.mem_range.1 (h.first hid)
    refine ⟨?_, (Finset.erase_subset _ _).trans h.first⟩
    dsimp only
    rw [activeSlots_releaseSlot (by omega), h.active]
  · cases hs

theorem inv_init : Inv {} := ⟨activeSlots_init, Finset.empty_subset _⟩

theorem inv_tries (h : tries step os {} = some s) : Inv s := by
  refine tries_inv (fun s o s' hinv hstep => ?_) h inv_init
  cases o with
  | acquire => exact (hinv.acquire hstep).1
  | release id => exact hinv.release hstep

/-- **When the slots are handed out**: as long as fewer than half of them are held. -/
theorem handsOut_iff (h : tries step os {} = some s) : s.reg.HandsOut ↔ s.held.card < 64 := by
  have hinv := inv_tries h
  have hne : s.reg.activeSlots ≠ Finset.range kMaxWorkers := by
    intro heq
    have hcard := Finset.card_le_card hinv.first
    rw [← hinv.active, heq, Finset.card_range, Finset.card_range] at hcard
    exact absurd hcard (by decide)
  rw [handsOut_iff_first, or_iff_left hne, hinv.first_full, not_le]

/-- One slot handed out. -/
def afterFirst : Workers := Workers.acquired {} (acquireSlot.run handle {})

theorem handsOut_afterFirst : afterFirst.held = {0} ∧ (afterFirst.reg.HandsOut ↔ afterFirst.held.card < 64) :=
  have h : tries step [.acquire] {} = some afterFirst := rfl
  ⟨by decide, handsOut_iff h⟩

/-- As many calls as there are bits in a word. -/
theorem tries_acquire {n : ℕ} (hn : n ≤ 64) :
    ∃ s, tries step (List.replicate n .acquire) {} = some s ∧ s.held.card = n := by
  induction n with
  | zero => exact ⟨{}, rfl, rfl⟩
  | succ n ih =>
    obtain ⟨s, hs, hcard⟩ := ih (by omega)
    have hstep : ∃ s', step .acquire s = some s' := ⟨_, rfl⟩
    obtain ⟨s', hs'⟩ := hstep
    refine ⟨s', ?_, ?_⟩
    · rw [List.replicate_succ', tries_append_eq_some]
      exact ⟨s, hs, tries_cons_eq_some.2 ⟨s', hs', rfl⟩⟩
    · rw [((inv_tries hs).acquire hs').2 (by omega), hcard]

/-- The 65th of 128 slots is refused. -/
theorem handsOut_fails : ∃ s, tries step (List.replicate 64 .acquire) {} = some s ∧
    (acquireSlot.run handle s.reg).1 = none ∧ 64 ∉ s.reg.activeSlots ∧ ¬ s.reg.HandsOut := by
  obtain ⟨s, hs, hcard⟩ := tries_acquire (Nat.le_refl 64)
  have hinv := inv_tries hs
  have hfree : 64 ∉ s.reg.activeSlots := by
    rw [hinv.active]
    exact fun hmem => absurd (Finset.mem_range.1 (hinv.first hmem)) (by decide)
  have hnone : (acquireSlot.run handle s.reg).1 = none := by
    rcases acquireSlot_run s.reg with ⟨-, hrun⟩ | ⟨i, hi, hclear, -⟩
    · rw [hrun]
    · exact absurd (ThreadLocalRegistry.first_full.1 (hinv.first_full.2 hcard.ge) i hi) hclear
  refine ⟨s, hs, hnone, hfree, fun h => hfree ?_⟩
  rw [h.none hnone]
  decide

end Workers

end StreamGate.Metrics

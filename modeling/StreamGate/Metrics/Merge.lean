import StreamGate.Lib.Interleave
import StreamGate.Metrics.Registry

/-!
# Merging into the history

A release reads the history and updates it in two steps.  Where no other release updates it in between, the history
gets the counts of every slot (`releases_merge`).
-/

namespace StreamGate.Metrics

open StreamGate.Lib ThreadLocalRegistry

namespace ThreadLocalRegistry

/-! ### The sum over the slots in use -/

theorem addWord_run (reg : ThreadLocalRegistry) (m : ℕ) (mask : BitVec 64) (v : Triple) :
    (addWord m mask v).run handle reg = (v + ∑ i ∈ setBits mask, reg._slots (m * 64 + i), reg) := by
  induction hn : mask.toNat using Nat.strongRecOn generalizing mask v with
  | ind n ih =>
    rw [addWord]
    split
    · subst mask
      rw [Prog.run_ret, setBits_eq_empty.2 rfl, Finset.sum_empty, add_zero]
    · have hctz := ctz_mem_setBits ‹mask ≠ 0›
      have hlt := toNat_clear_lt hctz
      have hsum := Finset.add_sum_erase (setBits mask) (fun i => reg._slots (m * 64 + i)) hctz
      rw [Prog.run_exec]
      dsimp only [handle, read]
      rw [ih _ (hn ▸ hlt) _ _ rfl, setBits_and_not_twoPow, add_assoc, hsum]

/-- The slots in use, word by word. -/
theorem sum_activeSlots (reg : ThreadLocalRegistry) (f : ℕ → Triple) : ∑ id ∈ reg.activeSlots, f id =
    ∑ i ∈ setBits (reg._active_mask 0), f (0 * 64 + i) + ∑ i ∈ setBits (reg._active_mask 1), f (1 * 64 + i) := by
  have hdisj : Disjoint ((setBits (reg._active_mask 0)).image (0 * 64 + ·))
      ((setBits (reg._active_mask 1)).image (1 * 64 + ·)) := by
    refine Finset.disjoint_left.2 fun id h₀ h₁ => ?_
    obtain ⟨i, hi, rfl⟩ := Finset.mem_image.1 h₀
    obtain ⟨j, -, hj⟩ := Finset.mem_image.1 h₁
    have := lt_of_mem_setBits hi
    omega
  have hunion : reg.activeSlots =
      (setBits (reg._active_mask 0)).image (0 * 64 + ·) ∪ (setBits (reg._active_mask 1)).image (1 * 64 + ·) := by
    ext id
    simp only [Finset.mem_union, Finset.mem_image]
    constructor
    · intro hid
      obtain ⟨hlt, hmem⟩ := mem_activeSlots.1 hid
      rcases (by omega : id / 64 = 0 ∨ id / 64 = 1) with h | h
      · exact .inl ⟨id % 64, h ▸ hmem, by omega⟩
      · exact .inr ⟨id % 64, h ▸ hmem, by omega⟩
    · rintro (⟨i, hi, rfl⟩ | ⟨i, hi, rfl⟩)
      · exact (bit_mem_activeSlots reg (by decide) (lt_of_mem_setBits hi)).2 hi
      · exact (bit_mem_activeSlots reg (by decide) (lt_of_mem_setBits hi)).2 hi
  rw [hunion, Finset.sum_union hdisj, Finset.sum_image fun i _ j _ h => Nat.add_left_cancel h,
    Finset.sum_image fun i _ j _ h => Nat.add_left_cancel h]

/-- **`aggregate` run alone** adds the slots in use to the history. -/
theorem aggregate_run (reg : ThreadLocalRegistry) :
    aggregate.run handle reg = (reg._historical_stats + ∑ id ∈ reg.activeSlots, reg._slots id, reg) := by
  rw [aggregate]
  simp only [Prog.run_exec, Prog.run_bind, handle, read, addWord_run]
  rw [sum_activeSlots, add_assoc]

end ThreadLocalRegistry

/-! ### Releases side by side -/

/-- Where a release is: what it has read of its slot and of the history. -/
inductive Phase where
  | read
  | zero (v : Triple)
  | load (v : Triple)
  | store (v h : Triple)
  | clear
  | done

namespace Phase

def clearProg (id : ℕ) : Prog iface Unit := .exec (Cmd.fetch_and (id / 64) (id % 64)) fun _ => .ret ()

def storeProg (id : ℕ) (v h : Triple) : Prog iface Unit :=
  .exec (Cmd.update .historical_stats (h + v)) fun _ => clearProg id

def loadProg (id : ℕ) (v : Triple) : Prog iface Unit :=
  .exec (Cmd.read .historical_stats) fun (h : Triple) => storeProg id v h

def zeroProg (id : ℕ) (v : Triple) : Prog iface Unit := .exec (Cmd.update (.slots id) 0) fun _ => loadProg id v

/-- What is left of the release. -/
def prog (id : ℕ) : Phase → Prog iface Unit
  | read => .exec (Cmd.read (.slots id)) fun (v : Triple) => zeroProg id v
  | zero v => zeroProg id v
  | load v => loadProg id v
  | store v h => storeProg id v h
  | clear => clearProg id
  | done => .ret ()

theorem releaseSlot_eq {id : ℕ} (hid : id < 128) : releaseSlot id = read.prog id := by
  rw [releaseSlot, if_neg (by rw [kMaxWorkers]; omega)]
  rfl

/-- The phase after the next command, and what the command does. -/
def next (id : ℕ) (reg : ThreadLocalRegistry) : Phase → Option (Phase × ThreadLocalRegistry)
  | read => some (zero (reg._slots id), reg)
  | zero v => some (load v, reg.update 0 (.slots id))
  | load v => some (store v reg._historical_stats, reg)
  | store v h => some (clear, reg.update (h + v) .historical_stats)
  | clear => some (done, reg.setMask (id / 64) (reg._active_mask (id / 64) &&& ~~~BitVec.twoPow 64 (id % 64)))
  | done => none

theorem prog_next (id : ℕ) (reg : ThreadLocalRegistry) (p : Phase) :
    (p.prog id).next handle reg = (p.next id reg).map fun r => (r.1.prog id, r.2) := by
  cases p <;> rfl

theorem prog_fail (id : ℕ) (p : Phase) : (p.prog id).fail = none := by cases p <;> rfl

theorem prog_eq_ret {id : ℕ} {p : Phase} (h : p.prog id = .ret ()) : p = done := by
  cases p with
  | done => rfl
  | _ => cases h

/-- How many commands have been served. -/
def count : Phase → ℕ
  | read => 0
  | zero _ => 1
  | load _ => 2
  | store _ _ => 3
  | clear => 4
  | done => 5

theorem count_next {id : ℕ} {reg reg' : ThreadLocalRegistry} {p p' : Phase} (h : p.next id reg = some (p', reg')) :
    p'.count = p.count + 1 := by
  cases p <;> cases h <;> rfl

/-- What the phase says about the slot and the history now, for a slot that held `v₀`. -/
def Fits (v₀ now history : Triple) : Phase → Prop
  | read => now = v₀
  | zero v => v = v₀
  | load v => v = v₀
  | store v h => v = v₀ ∧ h = history
  | _ => True

/-- Only a release that is about to update the history depends on it. -/
theorem Fits.history {v₀ now history history' : Triple} {p : Phase} (h : p.Fits v₀ now history)
    (hstore : p.count = 3 → history' = history) : p.Fits v₀ now history' := by
  cases p with
  | store v hist => exact ⟨h.1, h.2.trans (hstore rfl).symm⟩
  | _ => exact h

end Phase

section Releases

variable {ι : Type} [Fintype ι] [DecidableEq ι]

/-- Threads that only release slots. -/
def machine : Machine iface ThreadLocalRegistry Empty := ⟨handle, Empty.elim⟩

/-- Every thread is about to release its slot. -/
def releasing (reg : ThreadLocalRegistry) (slot : ι → ℕ) : Conf iface ThreadLocalRegistry ι Unit :=
  ⟨reg, fun i => releaseSlot (slot i)⟩

/-- The threads that have had `n` commands served. -/
def reached (phase : ι → Phase) (n : ℕ) : Finset ι := {i | n ≤ (phase i).count}

/-- The registry `st` after releases of the slots of `reg` have come to `phase`. -/
structure Merged (reg : ThreadLocalRegistry) (slot : ι → ℕ) (phase : ι → Phase) (st : ThreadLocalRegistry) : Prop where
  fits : ∀ i, (phase i).Fits (reg._slots (slot i)) (st._slots (slot i)) st._historical_stats
  history : st._historical_stats = reg._historical_stats + ∑ i ∈ reached phase 4, reg._slots (slot i)
  active : st.activeSlots = reg.activeSlots \ (reached phase 5).image slot
  others : ∀ id, (∀ i, slot i ≠ id) → st._slots id = reg._slots id

variable {reg st st' : ThreadLocalRegistry} {slot : ι → ℕ} {phase : ι → Phase} {p : Phase} {j : ι}

omit [Fintype ι] in
theorem fits_update {st : ThreadLocalRegistry}
    (hj : p.Fits (reg._slots (slot j)) (st._slots (slot j)) st._historical_stats)
    (hne : ∀ i, i ≠ j → (phase i).Fits (reg._slots (slot i)) (st._slots (slot i)) st._historical_stats) (i : ι) :
    (Function.update phase j p i).Fits (reg._slots (slot i)) (st._slots (slot i)) st._historical_stats := by
  rcases eq_or_ne i j with rfl | h
  · rwa [Function.update_self]
  · rw [Function.update_of_ne h]
    exact hne i h

theorem reached_update (hcount : p.count = (phase j).count + 1) (n : ℕ) : reached (Function.update phase j p) n =
    if p.count = n then insert j (reached phase n) else reached phase n := by
  have hmem : ∀ i, i ∈ reached (Function.update phase j p) n ↔ i = j ∧ p.count = n ∨ i ∈ reached phase n := by
    intro i
    rw [reached, reached, Finset.mem_filter, Finset.mem_filter]
    rcases eq_or_ne i j with rfl | hne
    · simp only [Finset.mem_univ, true_and, Function.update_self]
      omega
    · simp only [Finset.mem_univ, true_and, Function.update_of_ne hne, hne, false_and, false_or]
  ext i
  rw [hmem]
  split
  · rename_i hp
    simp only [hp, and_true, Finset.mem_insert]
  · rename_i hp
    simp only [hp, and_false, false_or]

/-- A command that touches neither the history nor the mask. -/
theorem Merged.private (h : Merged reg slot phase st) (hhistory : st'._historical_stats = st._historical_stats)
    (hactive : st'.activeSlots = st.activeSlots) (hslots : ∀ id, id ≠ slot j → st'._slots id = st._slots id)
    (hslot : Function.Injective slot) (hcount : p.count = (phase j).count + 1) (hlt : p.count < 4)
    (hfits : p.Fits (reg._slots (slot j)) (st'._slots (slot j)) st'._historical_stats) :
    Merged reg slot (Function.update phase j p) st' where
  fits := by
    refine fits_update hfits fun i hi => ?_
    rw [hslots _ (hslot.ne hi), hhistory]
    exact h.fits i
  history := by
    rw [hhistory, h.history, reached_update hcount, if_neg (by omega)]
  active := by
    rw [hactive, h.active, reached_update hcount, if_neg (by omega)]
  others id hid := by
    rw [hslots id (hid j).symm, h.others id hid]

/-- The update of the history, by a release that read it as it is now. -/
theorem Merged.store (h : Merged reg slot phase st) (hthree : (phase j).count = 3)
    (hapart : reg._slots (slot j) ≠ 0 → ∀ i, i ≠ j → (phase i).count ≠ 3) :
    Merged reg slot (Function.update phase j .clear)
      (st.update (st._historical_stats + reg._slots (slot j)) .historical_stats) := by
  have hnew : j ∉ reached phase 4 := by simp [reached, hthree]
  have hcount : Phase.clear.count = (phase j).count + 1 := by rw [hthree]; rfl
  refine ⟨fits_update trivial fun i hi => ?_, ?_, ?_, h.others⟩
  · refine (h.fits i).history fun hi_count => ?_
    -- another release is about to update: this one changes nothing
    have hzero : reg._slots (slot j) = 0 := by
      by_contra hne
      exact hapart hne i hi hi_count
    dsimp only [update]
    rw [hzero, add_zero]
  · rw [reached_update hcount, if_pos (show Phase.clear.count = 4 from rfl), Finset.sum_insert hnew]
    dsimp only [update]
    rw [h.history, add_assoc, add_comm (reg._slots (slot j))]
  · rw [activeSlots_update, h.active, reached_update hcount, if_neg (by simp [Phase.count])]

/-- The bit that a release clears. -/
theorem Merged.clear (h : Merged reg slot phase st) (hfour : (phase j).count = 4) :
    Merged reg slot (Function.update phase j .done)
      (st.setMask (slot j / 64) (st._active_mask (slot j / 64) &&& ~~~BitVec.twoPow 64 (slot j % 64))) := by
  have hcount : Phase.done.count = (phase j).count + 1 := by rw [hfour]; rfl
  have hbit : slot j / 64 * 64 + slot j % 64 = slot j := by omega
  refine ⟨fits_update trivial fun i _ => h.fits i, ?_, ?_, h.others⟩
  · rw [reached_update hcount, if_neg (by simp [Phase.count])]
    exact h.history
  · rw [reached_update hcount, if_pos (show Phase.done.count = 5 from rfl), activeSlots_fetch_and (by omega), hbit,
      h.active, Finset.image_insert, Finset.sdiff_insert]

theorem Merged.next (h : Merged reg slot phase st) (hslot : Function.Injective slot)
    (hn : (phase j).next (slot j) st = some (p, st'))
    (hapart : (phase j).count = 3 → reg._slots (slot j) ≠ 0 → ∀ i, i ≠ j → (phase i).count ≠ 3) :
    Merged reg slot (Function.update phase j p) st' := by
  have hfits := h.fits j
  have hcount := Phase.count_next hn
  cases hphase : phase j with
  | read =>
    rw [hphase] at hn hfits
    obtain ⟨rfl, rfl⟩ := Prod.mk.inj (Option.some.inj hn)
    exact h.private rfl rfl (fun _ _ => rfl) hslot hcount (by simp [Phase.count]) hfits
  | zero v =>
    rw [hphase] at hn hfits
    obtain ⟨rfl, rfl⟩ := Prod.mk.inj (Option.some.inj hn)
    refine h.private rfl rfl (fun id hid => ?_) hslot hcount (by simp [Phase.count]) hfits
    exact Function.update_of_ne hid _ _
  | load v =>
    rw [hphase] at hn hfits
    obtain ⟨rfl, rfl⟩ := Prod.mk.inj (Option.some.inj hn)
    exact h.private rfl rfl (fun _ _ => rfl) hslot hcount (by simp [Phase.count]) ⟨hfits, rfl⟩
  | store v hist =>
    have hthree : (phase j).count = 3 := by rw [hphase]; rfl
    rw [hphase] at hn hfits
    obtain ⟨rfl, rfl⟩ := Prod.mk.inj (Option.some.inj hn)
    obtain ⟨rfl, rfl⟩ := hfits
    exact h.store hthree (hapart hthree)
  | clear =>
    have hfour : (phase j).count = 4 := by rw [hphase]; rfl
    rw [hphase] at hn
    obtain ⟨rfl, rfl⟩ := Prod.mk.inj (Option.some.inj hn)
    exact h.clear hfour
  | done =>
    rw [hphase] at hn
    cases hn

/-- No release with counts updates the history while another is between its read and its update. -/
def Apart (reg : ThreadLocalRegistry) (slot : ι → ℕ) (es : List (Ev ι Empty)) : Prop :=
  ∀ past j, past ++ [.run j] <+: es → served j past = 3 → reg._slots (slot j) ≠ 0 → ∀ i, i ≠ j → served i past ≠ 3

omit [DecidableEq ι] in
theorem merged_init (reg : ThreadLocalRegistry) (slot : ι → ℕ) : Merged reg slot (fun _ => .read) reg where
  fits _ := rfl
  history := by simp [reached, Phase.count]
  active := by simp [reached, Phase.count]
  others _ _ := rfl

/-- The releases in a run, each with its phase. -/
theorem merged_exec {es : List (Ev ι Empty)} {c : Conf iface ThreadLocalRegistry ι Unit}
    (hslot : Function.Injective slot) (hheld : ∀ i, slot i ∈ reg.activeSlots) (hapart : Apart reg slot es)
    (hrun : (releasing reg slot).exec machine es = some c) : ∃ phase : ι → Phase,
      (∀ i, c.thr i = (phase i).prog (slot i) ∧ served i es = (phase i).count) ∧ Merged reg slot phase c.st := by
  refine Conf.exec_induction (fun past c => ∃ phase : ι → Phase,
    (∀ i, c.thr i = (phase i).prog (slot i) ∧ served i past = (phase i).count) ∧ Merged reg slot phase c.st)
    ⟨fun _ => .read, fun i => ⟨Phase.releaseSlot_eq (mem_activeSlots.1 (hheld i)).1, rfl⟩, merged_init reg slot⟩ ?_ hrun
  rintro past e c c' hpre - ⟨phase, hphase, hmerged⟩ hstep
  cases e with
  | run j =>
    obtain ⟨q, st, hq, rfl⟩ := Conf.step_run.1 hstep
    rw [(hphase j).1] at hq
    obtain ⟨⟨p, st⟩, hp, heq⟩ := Option.map_eq_some_iff.1 ((Phase.prog_next (slot j) c.st (phase j)).symm.trans hq)
    obtain ⟨rfl, rfl⟩ := Prod.mk.inj heq
    refine ⟨Function.update phase j p, fun i => ?_, hmerged.next hslot hp fun hcount hne i hi => ?_⟩
    · rw [served_append_run]
      dsimp only
      rcases eq_or_ne i j with rfl | hij
      · rw [if_pos rfl, (hphase i).2, Function.update_self, Function.update_self, Phase.count_next hp]
        exact ⟨rfl, rfl⟩
      · rw [if_neg hij.symm, Function.update_of_ne hij, Function.update_of_ne hij]
        exact hphase i
    · have hserved := hapart past j hpre ((hphase j).2.trans hcount) hne i hi
      rwa [(hphase i).2] at hserved
  | fail j =>
    rw [Conf.step, (hphase j).1, Phase.prog_fail] at hstep
    cases hstep
  | env e => exact e.elim

/-- **What releases add to the history.**  When all have finished, and none has updated the history between another's
read and its update, the history has grown by the counts of all slots, and `aggregate` returns what it did before. -/
theorem releases_merge {es : List (Ev ι Empty)} {c : Conf iface ThreadLocalRegistry ι Unit}
    (hslot : Function.Injective slot) (hheld : ∀ i, slot i ∈ reg.activeSlots) (hapart : Apart reg slot es)
    (hrun : (releasing reg slot).exec machine es = some c) (hdone : ∀ i, c.thr i = .ret ()) :
    c.st._historical_stats = reg._historical_stats + ∑ i, reg._slots (slot i) ∧
      (aggregate.run handle c.st).1 = (aggregate.run handle reg).1 := by
  obtain ⟨phase, hphase, hmerged⟩ := merged_exec hslot hheld hapart hrun
  have hcount : ∀ i, (phase i).count = 5 := by
    intro i
    have hret := hdone i
    rw [(hphase i).1] at hret
    rw [Phase.prog_eq_ret hret]
    rfl
  have hreached : ∀ n ≤ 5, reached phase n = Finset.univ := by
    intro n hn
    refine Finset.eq_univ_of_forall fun i => ?_
    simpa [reached, hcount i] using hn
  have hhistory := hmerged.history
  have hactive := hmerged.active
  rw [hreached 4 (by decide)] at hhistory
  rw [hreached 5 (by decide)] at hactive
  refine ⟨hhistory, ?_⟩
  -- the slots still in use are as they were
  have hslots : ∑ id ∈ c.st.activeSlots, c.st._slots id =
      ∑ id ∈ reg.activeSlots \ Finset.univ.image slot, reg._slots id := by
    rw [hactive]
    refine Finset.sum_congr rfl fun id hid => hmerged.others id fun i hi => ?_
    exact (Finset.mem_sdiff.1 hid).2 (Finset.mem_image.2 ⟨i, Finset.mem_univ i, hi⟩)
  have hsubset : Finset.univ.image slot ⊆ reg.activeSlots := by
    intro id hid
    obtain ⟨i, -, rfl⟩ := Finset.mem_image.1 hid
    exact hheld i
  rw [aggregate_run, aggregate_run]
  dsimp only
  rw [hhistory, hslots, ← Finset.sum_sdiff hsubset, Finset.sum_image fun i _ j _ h => hslot h, add_assoc,
    add_comm (∑ i, reg._slots (slot i))]

/-- Only the prefixes of the schedule count. -/
instance (reg : ThreadLocalRegistry) (slot : ι → ℕ) (es : List (Ev ι Empty)) : Decidable (Apart reg slot es) :=
  decidable_of_iff (∀ past ∈ es.inits, ∀ j, past ++ [.run j] <+: es → served j past = 3 →
    reg._slots (slot j) ≠ 0 → ∀ i, i ≠ j → served i past ≠ 3)
    ⟨fun h past j hpre => h past ((List.mem_inits _ _).2 ((List.prefix_append _ _).trans hpre)) j hpre,
      fun h past _ j hpre => h past j hpre⟩

end Releases

/-- Two slots with counts. -/
def twoSlots : ThreadLocalRegistry where
  _slots id := if id = 0 then (3, 2, 1) else if id = 1 then (1, 1, 0) else 0
  _active_mask m := if m = 0 then 3 else 0

/-- Where a schedule of their releases leads. -/
def twoReleases (es : List (Ev (Fin 2) Empty)) : Conf iface ThreadLocalRegistry (Fin 2) Unit :=
  ((releasing twoSlots Fin.val).exec machine es).getD (releasing twoSlots Fin.val)

/-- One release after the other. -/
def oneByOne : List (Ev (Fin 2) Empty) := List.replicate 5 (.run 0) ++ List.replicate 5 (.run 1)

theorem releases_oneByOne : (twoReleases oneByOne).st._historical_stats = (4, 3, 1) ∧
    (aggregate.run handle (twoReleases oneByOne).st).1 = (aggregate.run handle twoSlots).1 := by
  have hrun : (releasing twoSlots Fin.val).exec machine oneByOne = some (twoReleases oneByOne) := rfl
  obtain ⟨hhistory, haggregate⟩ := releases_merge Fin.val_injective (by decide +kernel) (by decide +kernel) hrun
    (Fin.forall_fin_two.2 ⟨rfl, rfl⟩)
  exact ⟨hhistory.trans (by decide), haggregate⟩

/-- Both read the history before one of them updates it. -/
def sideBySide : List (Ev (Fin 2) Empty) :=
  [.run 0, .run 0, .run 0, .run 1, .run 1, .run 1, .run 0, .run 1, .run 0, .run 1]

theorem releases_sideBySide : (∀ i : Fin 2, i.val ∈ twoSlots.activeSlots) ∧
    (releasing twoSlots Fin.val).exec machine sideBySide = some (twoReleases sideBySide) ∧
    (∀ i, (twoReleases sideBySide).thr i = .ret ()) ∧
    (twoReleases sideBySide).st._historical_stats = (1, 1, 0) ∧
    (aggregate.run handle (twoReleases sideBySide).st).1 = (1, 1, 0) ∧
    (aggregate.run handle twoSlots).1 = (4, 3, 1) := by
  refine ⟨by decide, rfl, Fin.forall_fin_two.2 ⟨rfl, rfl⟩, by decide, ?_, ?_⟩
  · rw [aggregate_run]
    decide +kernel
  · rw [aggregate_run]
    decide +kernel

end StreamGate.Metrics

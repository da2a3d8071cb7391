import StreamGate.Lib.Runs
import StreamGate.Metrics.Registry

/-!
# The sequence lock of a slot

`WorkerStatsSlot::update` and `WorkerStatsSlot::read`, load by load and store by store: one writer and any number of
readers.  A read returns the counters of a single update (`read_not_torn`).
-/

namespace StreamGate.Metrics.SeqLock

open StreamGate.Lib

structure WorkerStatsSlot where
  seq : BitVec 64 := 0
  total_requests : BitVec 64 := 0
  success_requests : BitVec 64 := 0
  failed_requests : BitVec 64 := 0

def WorkerStatsSlot.value (slot : WorkerStatsSlot) : Triple :=
  (slot.total_requests, slot.success_requests, slot.failed_requests)

/-- Where `update` is: the store that is next, and its arguments. -/
inductive Writer where
  | idle
  | total (v : Triple)
  | success (v : Triple)
  | failed (v : Triple)
  | publish (v : Triple)

/-- Where `read` is: the load that is next, and what has been loaded. -/
inductive Reader where
  | idle
  | start
  | total (s1 : BitVec 64)
  | success (s1 t : BitVec 64)
  | failed (s1 t s : BitVec 64)
  | check (s1 : BitVec 64) (v : Triple)
  | returned (v : Triple)

structure State (ι : Type) where
  slot : WorkerStatsSlot := {}
  writer : Writer := .idle
  reader : ι → Reader := fun _ => .idle

inductive Event (ι : Type) where
  /-- the writer calls `update` and makes its first step -/
  | update (v : Triple)
  /-- the next step of the writer -/
  | write
  /-- `i` calls `read` -/
  | read (i : ι)
  /-- the next load of `i` -/
  | load (i : ι)

/-- The first step of `update`. -/
def Writer.begin (v : Triple) (slot : WorkerStatsSlot) : Writer → Option (WorkerStatsSlot × Writer)
  | .idle => some ({ slot with seq := slot.seq + 1 }, .total v)
  | _ => none

def Writer.next (slot : WorkerStatsSlot) : Writer → Option (WorkerStatsSlot × Writer)
  | .idle => none
  | .total v => some ({ slot with total_requests := v.1 }, .success v)
  | .success v => some ({ slot with success_requests := v.2.1 }, .failed v)
  | .failed v => some ({ slot with failed_requests := v.2.2 }, .publish v)
  | .publish _ => some ({ slot with seq := slot.seq + 1 }, .idle)

def Reader.begin : Reader → Option Reader
  | .idle => some .start
  | .returned _ => some .start
  | _ => none

def Reader.next (slot : WorkerStatsSlot) : Reader → Option Reader
  | .start => some (.total slot.seq)
  | .total s1 => some (.success s1 slot.total_requests)
  | .success s1 t => some (.failed s1 t slot.success_requests)
  | .failed s1 t s => some (.check s1 (t, s, slot.failed_requests))
  | .check s1 v => some (if s1 &&& 1 ≠ 0 ∨ s1 ≠ slot.seq then .start else .returned v)
  | _ => none

def step {ι : Type} [DecidableEq ι] : Event ι → State ι → Option (State ι)
  | .update v, s => (s.writer.begin v s.slot).map fun r => { s with slot := r.1, writer := r.2 }
  | .write, s => (s.writer.next s.slot).map fun r => { s with slot := r.1, writer := r.2 }
  | .read i, s => (s.reader i).begin.map fun r => { s with reader := Function.update s.reader i r }
  | .load i, s => ((s.reader i).next s.slot).map fun r => { s with reader := Function.update s.reader i r }

/-! ### What the sequence number says -/

section Invariant

variable {ι : Type}

def Event.isUpdate : Event ι → Bool
  | .update _ => true
  | _ => false

/-- How many updates have begun. -/
def starts (es : List (Event ι)) : ℕ := es.countP Event.isUpdate

/-- The counters of the slot at first, or those of an update. -/
def Written (es : List (Event ι)) (v : Triple) : Prop := v = 0 ∨ .update v ∈ es

/-- An update in progress, which makes the sequence number odd. -/
def Writer.busy : Writer → ℕ
  | .idle => 0
  | _ => 1

/-- What the slot has of the update in progress, or of the last. -/
def Writer.Ok (slot : WorkerStatsSlot) (es : List (Event ι)) : Writer → Prop
  | .idle => Written es slot.value
  | .total v => Written es v
  | .success v => Written es v ∧ slot.total_requests = v.1
  | .failed v => Written es v ∧ slot.total_requests = v.1 ∧ slot.success_requests = v.2.1
  | .publish v => Written es v ∧ slot.value = v

/-- The sequence number that a read has loaded first. -/
def Reader.s1 : Reader → Option (BitVec 64)
  | .total s1 => some s1
  | .success s1 _ => some s1
  | .failed s1 _ _ => some s1
  | .check s1 _ => some s1
  | _ => none

/-- The counters that a read has loaded are those of the slot. -/
def Reader.Agrees (slot : WorkerStatsSlot) : Reader → Prop
  | .success _ t => t = slot.total_requests
  | .failed _ t s => t = slot.total_requests ∧ s = slot.success_requests
  | .check _ v => v = slot.value
  | _ => True

/-- A read that began after `S` updates, when `seq` has been stepped `n` times: it loaded `seq` after `k` steps, and if
there was no update then and has been none since, it has loaded the counters of the slot. -/
structure Reader.Ok (slot : WorkerStatsSlot) (es : List (Event ι)) (S n : ℕ) (r : Reader) : Prop where
  loaded : ∀ s1 ∈ r.s1, ∃ k, 2 * S ≤ k + 1 ∧ k ≤ n ∧ s1 = BitVec.ofNat 64 k ∧ (k % 2 = 0 → k = n → r.Agrees slot)
  returned : ∀ v, r = .returned v → Written es v

/-- The sequence number counts the first and last steps of updates, modulo `2 ^ 64`. -/
structure Inv (es : List (Event ι)) (n : ℕ) (s : State ι) : Prop where
  steps : n + s.writer.busy = 2 * starts es
  seq : s.slot.seq = BitVec.ofNat 64 n
  writer : s.writer.Ok s.slot es

variable {s s' : State ι} {es : List (Event ι)} {e : Event ι} {n S : ℕ} {slot : WorkerStatsSlot} {r r' : Reader}
  {w w' : Writer} {v : Triple}

theorem starts_update (es : List (Event ι)) (v : Triple) : starts (es ++ [.update v]) = starts es + 1 := by
  simp [starts, Event.isUpdate]

theorem starts_of_not_update (es : List (Event ι)) (he : e.isUpdate = false) : starts (es ++ [e]) = starts es := by
  simp [starts, he]

theorem Written.append (h : Written es v) (e : Event ι) : Written (es ++ [e]) v :=
  h.imp_right fun hmem => List.mem_append_left _ hmem

theorem Writer.Ok.append (h : w.Ok slot es) (e : Event ι) : w.Ok slot (es ++ [e]) := by
  cases w with
  | idle => exact Written.append h e
  | total v => exact Written.append h e
  | success v => exact ⟨h.1.append e, h.2⟩
  | failed v => exact ⟨h.1.append e, h.2⟩
  | publish v => exact ⟨h.1.append e, h.2⟩

/-- The writer moves: a read that has loaded an even number is out of date, or has been already. -/
theorem Reader.Ok.write (h : r.Ok slot es S n) (e : Event ι) (slot' : WorkerStatsSlot) {n' : ℕ}
    (hn : n' = n + 1 ∨ n' = n ∧ n % 2 = 1) : r.Ok slot' (es ++ [e]) S n' where
  loaded s1 hs1 := by
    obtain ⟨k, hS, hk, hs1, -⟩ := h.loaded s1 hs1
    exact ⟨k, hS, by omega, hs1, fun _ _ => by omega⟩
  returned v hv := (h.returned v hv).append e

theorem Reader.Ok.append (h : r.Ok slot es S n) (e : Event ι) : r.Ok slot (es ++ [e]) S n :=
  ⟨h.loaded, fun v hv => (h.returned v hv).append e⟩

theorem Reader.begin_eq (h : r.begin = some r') : r' = .start := by
  cases r with
  | idle => exact (Option.some.inj h).symm
  | returned v => exact (Option.some.inj h).symm
  | _ => cases h

theorem Reader.ok_start : Reader.start.Ok slot es S n := ⟨fun s1 hs1 => (by cases hs1), fun v hv => (by cases hv)⟩

theorem even_of_and_one {k : ℕ} (h : BitVec.ofNat 64 k &&& 1 = 0) : k % 2 = 0 := by
  have hnat := congrArg BitVec.toNat h
  rw [BitVec.toNat_and, BitVec.toNat_ofNat] at hnat
  have hmod : k % 2 ^ 64 % 2 = 0 := (Nat.and_one_is_mod _).symm.trans hnat
  omega

/-- The same word again, before `seq` has come round. -/
theorem ofNat_inj {k : ℕ} (hk : k ≤ n) (hfew : n < k + 2 ^ 64) (h : BitVec.ofNat 64 k = BitVec.ofNat 64 n) : k = n := by
  have hnat := congrArg BitVec.toNat h
  rw [BitVec.toNat_ofNat, BitVec.toNat_ofNat] at hnat
  omega

/-- A load of a read, as long as `seq` has not come round. -/
theorem Reader.Ok.next (h : r.Ok slot es S n) (hseq : slot.seq = BitVec.ofNat 64 n)
    (hvalue : n % 2 = 0 → Written es slot.value) (hS : 2 * S ≤ n + 1) (hfew : n + 1 < 2 * S + 2 ^ 64)
    (hr : r.next slot = some r') : r'.Ok slot es S n := by
  have hloaded := h.loaded
  cases r with
  | idle => cases hr
  | start =>
    obtain rfl := Option.some.inj hr
    refine ⟨fun s1 hs1 => ⟨n, hS, Nat.le_refl n, ?_, fun _ _ => trivial⟩, fun v hv => by cases hv⟩
    obtain rfl := Option.some.inj hs1
    exact hseq
  | total s1 =>
    obtain rfl := Option.some.inj hr
    refine ⟨fun s1 hs1 => ?_, fun v hv => by cases hv⟩
    obtain ⟨k, hkS, hk, hs1, -⟩ := hloaded s1 hs1
    exact ⟨k, hkS, hk, hs1, fun _ _ => rfl⟩
  | success s1 t =>
    obtain rfl := Option.some.inj hr
    refine ⟨fun s1 hs1 => ?_, fun v hv => by cases hv⟩
    obtain ⟨k, hkS, hk, hs1, hagrees⟩ := hloaded s1 hs1
    exact ⟨k, hkS, hk, hs1, fun heven hkn => ⟨hagrees heven hkn, rfl⟩⟩
  | failed s1 t s =>
    obtain rfl := Option.some.inj hr
    refine ⟨fun s1 hs1 => ?_, fun v hv => by cases hv⟩
    obtain ⟨k, hkS, hk, hs1, hagrees⟩ := hloaded s1 hs1
    refine ⟨k, hkS, hk, hs1, fun heven hkn => ?_⟩
    obtain ⟨rfl, rfl⟩ := hagrees heven hkn
    rfl
  | check s1 v =>
    obtain rfl := Option.some.inj hr
    split
    · exact ok_start
    · rename_i hsame
      refine ⟨fun s1 hs1 => (by cases hs1), fun v' hv' => ?_⟩
      obtain rfl : v = v' := Reader.returned.inj hv'
      obtain ⟨k, hkS, hk, rfl, hagrees⟩ := hloaded s1 rfl
      -- `seq` has the value that it had at the first load, so it has not been stepped since
      rw [not_or, not_not, not_not, hseq] at hsame
      have heven : k % 2 = 0 := even_of_and_one hsame.1
      obtain rfl : k = n := ofNat_inj hk (by omega) hsame.2
      obtain rfl : v = slot.value := hagrees heven rfl
      exact hvalue heven
  | returned v => cases hr

/-- The writer begins an update. -/
theorem Inv.begin (h : Inv es n s) (hw : s.writer.begin v s.slot = some (slot, w)) :
    Inv (es ++ [.update v]) (n + 1) { s with slot := slot, writer := w } := by
  have hsteps := h.steps
  cases hwriter : s.writer with
  | idle =>
    rw [hwriter] at hw hsteps
    obtain ⟨rfl, rfl⟩ := Prod.mk.inj (Option.some.inj hw)
    refine ⟨?_, ?_, .inr (by simp)⟩
    · rw [starts_update]
      simp only [Writer.busy] at hsteps ⊢
      omega
    · dsimp only
      rw [h.seq]
      exact (BitVec.ofNat_add n 1).symm
  | _ =>
    rw [hwriter] at hw
    cases hw

/-- The writer goes on: `seq` is odd, or is stepped. -/
theorem Inv.next (h : Inv es n s) (hw : s.writer.next s.slot = some (slot, w)) :
    ∃ n', (n' = n + 1 ∨ n' = n ∧ n % 2 = 1) ∧ Inv (es ++ [.write]) n' { s with slot := slot, writer := w } := by
  have hsteps := h.steps
  have hstarts : starts (es ++ [.write]) = starts es := starts_of_not_update es rfl
  have hok := h.writer.append .write
  cases hwriter : s.writer with
  | idle =>
    rw [hwriter] at hw
    cases hw
  | total v =>
    rw [hwriter] at hw hsteps hok
    obtain ⟨rfl, rfl⟩ := Prod.mk.inj (Option.some.inj hw)
    simp only [Writer.busy] at hsteps
    exact ⟨n, .inr ⟨rfl, by omega⟩, by rw [hstarts]; exact hsteps, h.seq, hok, rfl⟩
  | success v =>
    rw [hwriter] at hw hsteps hok
    obtain ⟨rfl, rfl⟩ := Prod.mk.inj (Option.some.inj hw)
    simp only [Writer.busy] at hsteps
    exact ⟨n, .inr ⟨rfl, by omega⟩, by rw [hstarts]; exact hsteps, h.seq, hok.1, hok.2, rfl⟩
  | failed v =>
    rw [hwriter] at hw hsteps hok
    obtain ⟨rfl, rfl⟩ := Prod.mk.inj (Option.some.inj hw)
    simp only [Writer.busy] at hsteps
    refine ⟨n, .inr ⟨rfl, by omega⟩, by rw [hstarts]; exact hsteps, h.seq, hok.1, ?_⟩
    rw [WorkerStatsSlot.value, hok.2.1, hok.2.2]
  | publish v =>
    rw [hwriter] at hw hsteps hok
    obtain ⟨rfl, rfl⟩ := Prod.mk.inj (Option.some.inj hw)
    simp only [Writer.busy] at hsteps
    refine ⟨n + 1, .inl rfl, ?_, ?_, ?_⟩
    · rw [hstarts]
      exact hsteps
    · dsimp only
      rw [h.seq]
      exact (BitVec.ofNat_add n 1).symm
    · obtain ⟨hwritten, hvalue⟩ := hok
      have hslot : Written (es ++ [.write]) s.slot.value := hvalue.symm ▸ hwritten
      exact hslot

/-- Readers only load. -/
theorem Inv.reader (h : Inv es n s) (he : e.isUpdate = false) (reader : ι → Reader) :
    Inv (es ++ [e]) n { s with reader := reader } where
  steps := by
    rw [starts_of_not_update es he]
    exact h.steps
  seq := h.seq
  writer := h.writer.append e

theorem inv_init : Inv ([] : List (Event ι)) 0 {} := ⟨rfl, rfl, .inl rfl⟩

/-- Between updates the slot has the counters of one. -/
theorem Inv.value (h : Inv es n s) (heven : n % 2 = 0) : Written es s.slot.value := by
  have hsteps := h.steps
  have hok := h.writer
  cases hwriter : s.writer with
  | idle =>
    rw [hwriter] at hok
    exact hok
  | _ =>
    rw [hwriter] at hsteps
    simp only [Writer.busy] at hsteps
    omega

end Invariant

/-! ### Runs -/

section Runs

variable {ι : Type} [DecidableEq ι] {s s' : State ι} {es es' : List (Event ι)} {e : Event ι} {n S : ℕ} {i : ι}
  {v : Triple}

/-- One step of the slot. -/
theorem Inv.step (h : Inv es n s) (hs : step e s = some s') : ∃ n', Inv (es ++ [e]) n' s' := by
  cases e with
  | update v =>
    obtain ⟨r, hr, rfl⟩ := Option.map_eq_some_iff.1 hs
    exact ⟨n + 1, h.begin hr⟩
  | write =>
    obtain ⟨r, hr, rfl⟩ := Option.map_eq_some_iff.1 hs
    obtain ⟨n', -, hinv⟩ := h.next hr
    exact ⟨n', hinv⟩
  | read j =>
    obtain ⟨r, -, rfl⟩ := Option.map_eq_some_iff.1 hs
    exact ⟨n, h.reader rfl _⟩
  | load j =>
    obtain ⟨r, -, rfl⟩ := Option.map_eq_some_iff.1 hs
    exact ⟨n, h.reader rfl _⟩

/-- One step, for a read that began after `S` updates. -/
theorem reader_step (h : Inv es n s) (hr : (s.reader i).Ok s.slot es S n) (hS : S ≤ starts es)
    (hfew : starts es < S + 2 ^ 63) (hs : SeqLock.step e s = some s') :
    ∃ n', Inv (es ++ [e]) n' s' ∧ (s'.reader i).Ok s'.slot (es ++ [e]) S n' := by
  have hsteps := h.steps
  have hbusy : s.writer.busy ≤ 1 := by cases s.writer <;> simp [Writer.busy]
  cases e with
  | update v =>
    obtain ⟨r, hbegin, rfl⟩ := Option.map_eq_some_iff.1 hs
    exact ⟨n + 1, h.begin hbegin, hr.write _ _ (.inl rfl)⟩
  | write =>
    obtain ⟨r, hnext, rfl⟩ := Option.map_eq_some_iff.1 hs
    obtain ⟨n', hn', hinv⟩ := h.next hnext
    exact ⟨n', hinv, hr.write _ _ hn'⟩
  | read j =>
    obtain ⟨r, hbegin, rfl⟩ := Option.map_eq_some_iff.1 hs
    refine ⟨n, h.reader rfl _, ?_⟩
    rcases eq_or_ne i j with rfl | hij
    · dsimp only
      rw [Function.update_self, Reader.begin_eq hbegin]
      exact Reader.ok_start
    · dsimp only
      rw [Function.update_of_ne hij]
      exact hr.append _
  | load j =>
    obtain ⟨r, hload, rfl⟩ := Option.map_eq_some_iff.1 hs
    refine ⟨n, h.reader rfl _, ?_⟩
    rcases eq_or_ne i j with rfl | hij
    · dsimp only
      rw [Function.update_self]
      exact (hr.next h.seq h.value (by omega) (by omega) hload).append _
    · dsimp only
      rw [Function.update_of_ne hij]
      exact hr.append _

/-- A read that begins after `es`, in a run in which `seq` does not come round. -/
theorem reader_run (h : Inv es n s) (hr : (s.reader i).Ok s.slot es (starts es) n) (hfew : starts es' < 2 ^ 63)
    (hrun : tries step es' s = some s') :
    ∃ n', Inv (es ++ es') n' s' ∧ (s'.reader i).Ok s'.slot (es ++ es') (starts es) n' := by
  refine tries_history (I := fun os s => starts os < 2 ^ 63 → ∃ n', Inv (es ++ os) n' s ∧
    (s.reader i).Ok s.slot (es ++ os) (starts es) n') ?_ hrun (fun _ => ⟨n, by simpa using h, by simpa using hr⟩) hfew
  intro os s e s' hos hstep hlt
  have hmore : starts os ≤ starts (os ++ [e]) := by simp [starts]
  have happend : starts (es ++ os) = starts es + starts os := by simp [starts]
  obtain ⟨n', hinv, hok⟩ := hos (by omega)
  rw [← List.append_assoc]
  exact reader_step hinv hok (by omega) (by omega) hstep

/-- **No torn reads.**  A read during which fewer than `2 ^ 63` updates begin returns the first counters of the slot, or
those of one update. -/
theorem read_not_torn (h : tries step (es ++ .read i :: es') {} = some s) (hfew : starts es' < 2 ^ 63)
    (hret : s.reader i = .returned v) : v = 0 ∨ .update v ∈ es ++ .read i :: es' := by
  obtain ⟨s₁, hs₁, h⟩ := tries_append_eq_some.1 h
  obtain ⟨s₂, hs₂, h⟩ := tries_cons_eq_some.1 h
  obtain ⟨n, hinv⟩ : ∃ n, Inv es n s₁ :=
    tries_history (I := fun es s => ∃ n, Inv es n s) (fun _ _ _ _ ⟨_, hinv⟩ hstep => hinv.step hstep) hs₁ ⟨0, inv_init⟩
  obtain ⟨r, hbegin, rfl⟩ := Option.map_eq_some_iff.1 hs₂
  have hok : Reader.Ok s₁.slot (es ++ [.read i]) (starts (es ++ [.read i])) n (Function.update s₁.reader i r i) := by
    rw [Function.update_self, Reader.begin_eq hbegin]
    exact Reader.ok_start
  obtain ⟨n', -, hret_ok⟩ := reader_run (hinv.reader rfl _) hok hfew h
  have hwritten := hret_ok.returned v hret
  rwa [List.append_assoc, List.singleton_append] at hwritten

end Runs

/-- One update before a read, and one that makes it try again. -/
def firstUpdate : List (Event ℕ) := [.update (1, 1, 0), .write, .write, .write, .write]

def secondUpdate : List (Event ℕ) :=
  [.load 0, .load 0, .update (2, 1, 1), .write, .load 0, .write, .write, .load 0, .write, .load 0,
    .load 0, .load 0, .load 0, .load 0, .load 0]

theorem read_not_torn_again : ∃ s, tries step (firstUpdate ++ .read 0 :: secondUpdate) {} = some s ∧
    s.reader 0 = .returned (2, 1, 1) ∧
    (((2, 1, 1) : Triple) = 0 ∨ .update (2, 1, 1) ∈ firstUpdate ++ .read 0 :: secondUpdate) := by
  have hrun : tries step (firstUpdate ++ .read 0 :: secondUpdate) {} = some _ := rfl
  have hret : Reader.returned (2, 1, 1) = .returned (2, 1, 1) := rfl
  exact ⟨_, hrun, rfl, read_not_torn hrun (by decide) hret⟩

end StreamGate.Metrics.SeqLock

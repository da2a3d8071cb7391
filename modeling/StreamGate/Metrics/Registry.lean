import StreamGate.Lib.Bits
import StreamGate.Lib.Prog
import Mathlib.Algebra.BigOperators.Group.Finset.Basic

/-!
# The registry of metric slots

A worker takes one of `kMaxWorkers` slots for its counters by setting the slot's bit in `_active_mask`, and its counts
go into the history when it gives the slot back.  Mask words are read and changed by atomic commands; reading or
updating a slot is one command here (`Metrics.SeqLock` is about the loads and stores that it consists of).
-/

namespace StreamGate.Metrics

open StreamGate.Lib

/-- The counters `(total, success, failed)` of a slot, modulo `2 ^ 64`. -/
abbrev Triple := BitVec 64 × BitVec 64 × BitVec 64

structure ThreadLocalRegistry where
  _slots : ℕ → Triple := fun _ => 0
  _active_mask : ℕ → BitVec 64 := fun _ => 0
  _historical_stats : Triple := 0

def kMaxWorkers : ℕ := 128

inductive SlotRef where
  | slots (id : ℕ)
  | historical_stats

inductive Cmd where
  /-- `_active_mask[m].load` -/
  | load (m : ℕ)
  /-- `_active_mask[m].fetch_or(1ULL << i)` -/
  | fetch_or (m i : ℕ)
  /-- `_active_mask[m].fetch_and(~(1ULL << i))` -/
  | fetch_and (m i : ℕ)
  | read (slot : SlotRef)
  | update (slot : SlotRef) (v : Triple)

/-- The mask commands return a word. -/
abbrev Cmd.Reply : Cmd → Type
  | .load _ => BitVec 64
  | .fetch_or _ _ => BitVec 64
  | .fetch_and _ _ => BitVec 64
  | .read _ => Triple
  | .update _ _ => Unit

abbrev iface : Iface := ⟨Cmd, Cmd.Reply⟩

namespace ThreadLocalRegistry

def setMask (reg : ThreadLocalRegistry) (m : ℕ) (mask : BitVec 64) : ThreadLocalRegistry :=
  { reg with _active_mask := Function.update reg._active_mask m mask }

def read (reg : ThreadLocalRegistry) : SlotRef → Triple
  | .slots id => reg._slots id
  | .historical_stats => reg._historical_stats

def update (reg : ThreadLocalRegistry) (v : Triple) : SlotRef → ThreadLocalRegistry
  | .slots id => { reg with _slots := Function.update reg._slots id v }
  | .historical_stats => { reg with _historical_stats := v }

/-- A command in the registry; those that change a word return it as it was. -/
def handle : (c : iface.Cmd) → ThreadLocalRegistry → iface.Reply c × ThreadLocalRegistry
  | .load m, reg => (reg._active_mask m, reg)
  | .fetch_or m i, reg => (reg._active_mask m, reg.setMask m (reg._active_mask m ||| BitVec.twoPow 64 i))
  | .fetch_and m i, reg => (reg._active_mask m, reg.setMask m (reg._active_mask m &&& ~~~BitVec.twoPow 64 i))
  | .read slot, reg => (reg.read slot, reg)
  | .update slot v, reg => ((), reg.update v slot)

/-! ### The operations -/

/-- The search through the bits `is` of word `m`, with a copy of a word that is read again only after a bit was
taken by another thread. -/
def search (m : ℕ) : List ℕ → BitVec 64 → Prog iface (Option ℕ)
  | [], _ => .ret none
  | i :: is, mask =>
    if mask &&& BitVec.twoPow 64 i = 0 then
      .exec (Cmd.fetch_or m i) fun (old : BitVec 64) =>
        if old &&& BitVec.twoPow 64 i = 0 then
          .exec (Cmd.update (.slots (m * 64 + i)) 0) fun _ => .ret (some (m * 64 + i))
        else .exec (Cmd.load m) fun (mask : BitVec 64) => search m is mask
    else search m is mask

def searchWords : List ℕ → Prog iface (Option ℕ)
  | [] => .ret none
  | m :: ms =>
    -- `_active_mask->load` is word 0, whatever `m` is
    .exec (Cmd.load 0) fun (mask : BitVec 64) => search m (List.range 64) mask >>= fun
      | some id => .ret (some id)
      | none => searchWords ms

def acquireSlot : Prog iface (Option ℕ) := searchWords [0, 1]

def releaseSlot (id : ℕ) : Prog iface Unit :=
  if id ≥ kMaxWorkers then .ret ()
  else
    .exec (Cmd.read (.slots id)) fun (v : Triple) =>
    .exec (Cmd.update (.slots id) 0) fun _ =>
    .exec (Cmd.read .historical_stats) fun (h : Triple) =>
    .exec (Cmd.update .historical_stats (h + v)) fun _ =>
    .exec (Cmd.fetch_and (id / 64) (id % 64)) fun _ => .ret ()

/-- The slots of the bits of `mask`, lowest first. -/
def addWord (m : ℕ) (mask : BitVec 64) (v : Triple) : Prog iface Triple :=
  if _h : mask = 0 then .ret v
  else
    .exec (Cmd.read (.slots (m * 64 + mask.ctz.toNat))) fun (s : Triple) =>
      addWord m (mask &&& ~~~BitVec.twoPow 64 mask.ctz.toNat) (v + s)
  termination_by mask.toNat
  decreasing_by exact toNat_clear_lt (ctz_mem_setBits _h)

def aggregate : Prog iface Triple :=
  .exec (Cmd.read .historical_stats) fun (v : Triple) =>
  .exec (Cmd.load 0) fun (mask : BitVec 64) => addWord 0 mask v >>= fun v =>
  .exec (Cmd.load 1) fun (mask : BitVec 64) => addWord 1 mask v

/-! ### The slots in use -/

/-- The slots whose bit is set. -/
def activeSlots (reg : ThreadLocalRegistry) : Finset ℕ :=
  {id ∈ Finset.range kMaxWorkers | id % 64 ∈ setBits (reg._active_mask (id / 64))}

variable {reg : ThreadLocalRegistry} {m i id : ℕ}

theorem mem_activeSlots : id ∈ reg.activeSlots ↔ id < 128 ∧ id % 64 ∈ setBits (reg._active_mask (id / 64)) := by
  rw [activeSlots, Finset.mem_filter, Finset.mem_range, kMaxWorkers]

theorem bit_mem_activeSlots (reg : ThreadLocalRegistry) (hm : m < 2) (hi : i < 64) :
    m * 64 + i ∈ reg.activeSlots ↔ i ∈ setBits (reg._active_mask m) := by
  have hmod : (m * 64 + i) % 64 = i := by omega
  have hdiv : (m * 64 + i) / 64 = m := by omega
  rw [mem_activeSlots, hmod, hdiv]
  exact and_iff_right (by omega)

/-- A new registry. -/
theorem activeSlots_init : activeSlots {} = ∅ := by
  refine Finset.eq_empty_of_forall_notMem fun id hid => ?_
  rw [mem_activeSlots] at hid
  simp at hid

@[simp] theorem activeSlots_update (reg : ThreadLocalRegistry) (v : Triple) (slot : SlotRef) :
    (reg.update v slot).activeSlots = reg.activeSlots := by
  cases slot <;> rfl

theorem activeSlots_fetch_or (hm : m < 2) (hi : i < 64) :
    (reg.setMask m (reg._active_mask m ||| BitVec.twoPow 64 i)).activeSlots =
      insert (m * 64 + i) reg.activeSlots := by
  ext id
  rw [Finset.mem_insert, mem_activeSlots, mem_activeSlots, setMask]
  dsimp only
  rcases eq_or_ne (id / 64) m with rfl | hne
  · have hlt : id < 128 := by omega
    have hbit : id = id / 64 * 64 + i ↔ id % 64 = i := by omega
    rw [Function.update_self, setBits_or_twoPow _ hi, Finset.mem_insert, hbit, and_iff_right hlt, and_iff_right hlt]
  · have hbit : id ≠ m * 64 + i := by omega
    rw [Function.update_of_ne hne, or_iff_right hbit]

theorem activeSlots_fetch_and (hi : i < 64) :
    (reg.setMask m (reg._active_mask m &&& ~~~BitVec.twoPow 64 i)).activeSlots =
      reg.activeSlots.erase (m * 64 + i) := by
  ext id
  rw [Finset.mem_erase, mem_activeSlots, mem_activeSlots, setMask]
  dsimp only
  rcases eq_or_ne (id / 64) m with rfl | hne
  · have hbit : id ≠ id / 64 * 64 + i ↔ id % 64 ≠ i := by omega
    rw [Function.update_self, setBits_and_not_twoPow, Finset.mem_erase, hbit, and_left_comm]
  · have hbit : id ≠ m * 64 + i := by omega
    rw [Function.update_of_ne hne, and_iff_right hbit]

end ThreadLocalRegistry

end StreamGate.Metrics

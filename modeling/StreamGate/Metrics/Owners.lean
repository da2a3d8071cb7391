import StreamGate.Lib.Allotment
import StreamGate.Lib.Runs
import StreamGate.Metrics.Registry
import Mathlib.Data.Finset.Option

/-!
# One owner for each slot

Any number of threads call `acquireSlot` and `releaseSlot`, one command at a time.  Whatever copy of the mask a search
works with, a slot is taken by the `fetch_or` that finds its bit clear (`slots_owned`).
-/

namespace StreamGate.Metrics

open StreamGate.Lib ThreadLocalRegistry

/-- A thread: what is left of its call, the slots that it holds, and the slot that its call has claimed or has still
to release. -/
structure Thread where
  call : Option (Prog iface (Option ℕ)) := none
  held : Finset ℕ := ∅
  own : Option ℕ := none

structure Threads (ι : Type) where
  reg : ThreadLocalRegistry := {}
  thr : ι → Thread := fun _ => {}

inductive ThreadEvent (ι : Type) where
  /-- `i` calls `acquireSlot` -/
  | acquire (i : ι)
  /-- `i` calls `releaseSlot` with a slot that it holds -/
  | release (i : ι) (id : ℕ)
  /-- the next command of the call of `i` -/
  | run (i : ι)
  /-- the call of `i` returns -/
  | ret (i : ι)

/-- A `fetch_or` that finds the bit clear claims the slot, and a `fetch_and` releases it. -/
def owning : (c : iface.Cmd) → iface.Reply c → Option ℕ → Option ℕ
  | .fetch_or m i, (old : BitVec 64), own => if i ∈ setBits old then own else some (m * 64 + i)
  | .fetch_and _ _, _, _ => none
  | _, _, own => own

namespace Thread

/-- The slots from the `fetch_or` that claimed them to the `fetch_and` that releases them. -/
def slots (t : Thread) : Finset ℕ := t.held ∪ t.own.toFinset

def startAcquire (t : Thread) : Option Thread :=
  match t.call with
  | none => some { t with call := some acquireSlot }
  | some _ => none

def startRelease (t : Thread) (id : ℕ) : Option Thread :=
  match t.call with
  | none =>
    if id ∈ t.held then
      some { call := some (releaseSlot id >>= fun _ => .ret none), held := t.held.erase id, own := some id }
    else none
  | some _ => none

def run (t : Thread) (reg : ThreadLocalRegistry) : Option (Thread × ThreadLocalRegistry) :=
  match t.call with
  | some (.exec c k) =>
    some ({ t with call := some (k (handle c reg).1), own := owning c (handle c reg).1 t.own }, (handle c reg).2)
  | _ => none

/-- A slot that `acquireSlot` returns is held from then on. -/
def ret (t : Thread) : Option Thread :=
  match t.call with
  | some (.ret id) => some { call := none, held := t.held ∪ id.toFinset, own := none }
  | _ => none

end Thread

/-! ### What a call does with slots -/

/-- The commands that a call with the slot `own` may send. -/
def Sends : iface.Cmd → Option ℕ → Prop
  | .fetch_or m i, own => m < 2 ∧ i < 64 ∧ own = none
  | .fetch_and m i, own => i < 64 ∧ own = some (m * 64 + i)
  | _, _ => True

/-- A call claims a slot at most once, releases only its slot, and returns the slot it has. -/
def Tracks : Prog iface (Option ℕ) → Option ℕ → Prop
  | .ret id, own => id = own
  | .call _ _, _ => False
  | .exec c k, own => Sends c own ∧ ∀ r, Tracks (k r) (owning c r own)

theorem Tracks.bind {p : Prog iface (Option ℕ)} {f : Option ℕ → Prog iface (Option ℕ)} {own : Option ℕ}
    (hp : Tracks p own) (hf : ∀ id, Tracks (f id) id) : Tracks (p >>= f) own := by
  induction p generalizing own with
  | ret id =>
    obtain rfl : id = own := hp
    exact hf id
  | call c k => exact hp.elim
  | exec c k ih => exact ⟨hp.1, fun r => ih r (hp.2 r)⟩

theorem tracks_search {m : ℕ} (hm : m < 2) {is : List ℕ} (his : ∀ i ∈ is, i < 64) (mask : BitVec 64) :
    Tracks (search m is mask) none := by
  induction is generalizing mask with
  | nil => rfl
  | cons i is ih =>
    have hrest : ∀ i ∈ is, i < 64 := fun i hi => his i (List.mem_cons_of_mem _ hi)
    have hi : i < 64 := his i (by simp)
    rw [search]
    split
    · refine ⟨⟨hm, hi, rfl⟩, fun (old : BitVec 64) => ?_⟩
      dsimp only [owning]
      -- the test of the program on the word before is the one that decides about the claim
      by_cases hold : i ∈ setBits old
      · rw [if_pos hold, if_neg (by rw [and_twoPow_eq_zero hi]; exact not_not_intro hold)]
        exact ⟨trivial, fun (mask : BitVec 64) => ih hrest mask⟩
      · rw [if_neg hold, if_pos ((and_twoPow_eq_zero hi).2 hold)]
        exact ⟨trivial, fun _ => rfl⟩
    · exact ih hrest mask

theorem tracks_searchWords {ms : List ℕ} (hms : ∀ m ∈ ms, m < 2) : Tracks (searchWords ms) none := by
  induction ms with
  | nil => rfl
  | cons m ms ih =>
    refine ⟨trivial, fun (mask : BitVec 64) => ?_⟩
    refine (tracks_search (hms m (by simp)) (fun i hi => List.mem_range.1 hi) mask).bind fun id => ?_
    cases id with
    | none => exact ih fun m hm => hms m (List.mem_cons_of_mem _ hm)
    | some id => rfl

theorem tracks_releaseSlot {id : ℕ} (hid : id < 128) :
    Tracks (releaseSlot id >>= fun _ => .ret none) (some id) := by
  have hslot : id / 64 * 64 + id % 64 = id := by omega
  rw [releaseSlot, if_neg (by rw [kMaxWorkers]; omega)]
  refine ⟨trivial, fun _ => ⟨trivial, fun _ => ⟨trivial, fun _ => ⟨trivial, fun _ => ⟨⟨by omega, ?_⟩, fun _ => rfl⟩⟩⟩⟩⟩
  rw [hslot]
  rfl

section Command

variable {c : iface.Cmd} {own : Option ℕ} {held : Finset ℕ} {reg : ThreadLocalRegistry}

/-- A command of a call moves at most the slot of the call. -/
theorem moves_handle (hc : Sends c own) (hown : ∀ id ∈ own, id ∉ held) :
    Moves (held ∪ own.toFinset) reg.activeSlots (held ∪ (owning c (handle c reg).1 own).toFinset)
      (handle c reg).2.activeSlots := by
  cases c with
  | load m => exact .keep
  | read slot => exact .keep
  | update slot v =>
    dsimp only [handle, owning]
    rw [activeSlots_update]
    exact .keep
  | fetch_or m i =>
    obtain ⟨hm, hi, rfl⟩ := hc
    dsimp only [handle, owning]
    rw [activeSlots_fetch_or hm hi]
    have hbit := bit_mem_activeSlots reg hm hi
    by_cases hold : i ∈ setBits (reg._active_mask m)
    · rw [if_pos hold, Finset.insert_eq_of_mem (hbit.2 hold)]
      exact .keep
    · rw [if_neg hold, Option.toFinset_some, Option.toFinset_none, Finset.union_empty, Finset.union_comm,
        ← Finset.insert_eq]
      exact .claim fun h => hold (hbit.1 h)
  | fetch_and m i =>
    obtain ⟨hi, rfl⟩ := hc
    dsimp only [handle, owning]
    have hmem : m * 64 + i ∈ held ∪ (some (m * 64 + i)).toFinset := by simp
    have herase : held ∪ (none : Option ℕ).toFinset = (held ∪ (some (m * 64 + i)).toFinset).erase (m * 64 + i) := by
      have hnot : m * 64 + i ∉ held := hown _ rfl
      rw [Option.toFinset_some, Option.toFinset_none, Finset.union_empty, Finset.union_comm, ← Finset.insert_eq,
        Finset.erase_insert hnot]
    rw [activeSlots_fetch_and hi, herase]
    exact .free hmem

/-- What a call claims, no one held. -/
theorem owning_apart (hc : Sends c own) (hown : ∀ id ∈ own, id ∉ held) (hheld : held ⊆ reg.activeSlots) :
    ∀ id ∈ owning c (handle c reg).1 own, id ∉ held := by
  cases c with
  | load m => exact hown
  | read slot => exact hown
  | update slot v => exact hown
  | fetch_or m i =>
    obtain ⟨hm, hi, rfl⟩ := hc
    dsimp only [handle, owning]
    split
    · exact hown
    · rename_i hold
      intro id hid hmem
      obtain rfl := Option.some.inj hid
      exact hold ((bit_mem_activeSlots reg hm hi).1 (hheld hmem))
  | fetch_and m i =>
    intro id hid
    cases hid

end Command

/-! ### What a thread does with slots -/

namespace Thread

variable {t t' : Thread} {id : ℕ} {reg reg' : ThreadLocalRegistry}

structure Ok (t : Thread) : Prop where
  tracks : ∀ p ∈ t.call, Tracks p t.own
  idle : t.call = none → t.own = none
  apart : ∀ id ∈ t.own, id ∉ t.held

theorem ok_of_idle (hcall : t.call = none) (hown : t.own = none) : t.Ok where
  tracks p hp := by simp [hcall] at hp
  idle _ := hown
  apart id hid := by simp [hown] at hid

theorem Ok.startAcquire (h : t.Ok) (ht : t.startAcquire = some t') : t'.Ok ∧ t'.slots = t.slots := by
  unfold Thread.startAcquire at ht
  split at ht
  · rename_i hcall
    obtain rfl := Option.some.inj ht
    refine ⟨⟨fun p hp => ?_, fun hnone => (Option.some_ne_none _ hnone).elim, h.apart⟩, rfl⟩
    obtain rfl := Option.some.inj hp
    dsimp only
    rw [h.idle hcall]
    exact tracks_searchWords (by decide)
  · cases ht

theorem Ok.startRelease (h : t.Ok) (hheld : ∀ id ∈ t.held, id < 128) (ht : t.startRelease id = some t') :
    t'.Ok ∧ t'.slots = t.slots := by
  unfold Thread.startRelease at ht
  split at ht
  · rename_i hcall
    split at ht
    · rename_i hmem
      obtain rfl := Option.some.inj ht
      refine ⟨⟨fun p hp => ?_, fun hnone => (Option.some_ne_none _ hnone).elim, fun id' hid' => ?_⟩, ?_⟩
      · obtain rfl := Option.some.inj hp
        exact tracks_releaseSlot (hheld id hmem)
      · obtain rfl := Option.some.inj hid'
        exact Finset.notMem_erase id _
      · rw [slots, slots, h.idle hcall, Option.toFinset_some, Option.toFinset_none, Finset.union_empty,
          Finset.union_comm, ← Finset.insert_eq, Finset.insert_erase hmem]
    · cases ht
  · cases ht

theorem Ok.run (h : t.Ok) (hheld : t.held ⊆ reg.activeSlots) (ht : t.run reg = some (t', reg')) :
    t'.Ok ∧ Moves t.slots reg.activeSlots t'.slots reg'.activeSlots := by
  unfold Thread.run at ht
  split at ht
  · rename_i c k hcall
    obtain ⟨rfl, rfl⟩ := Prod.mk.inj (Option.some.inj ht)
    obtain ⟨hsends, hrest⟩ := h.tracks _ hcall
    have hbusy : some (k (handle c reg).1) ≠ none := Option.some_ne_none _
    refine ⟨⟨fun p hp => ?_, fun hnone => (hbusy hnone).elim, owning_apart hsends h.apart hheld⟩,
      moves_handle hsends h.apart⟩
    obtain rfl := Option.some.inj hp
    exact hrest _
  · cases ht

theorem Ok.ret (h : t.Ok) (ht : t.ret = some t') : t'.Ok ∧ t'.slots = t.slots := by
  unfold Thread.ret at ht
  split at ht
  · rename_i id hcall
    obtain rfl := Option.some.inj ht
    obtain rfl : id = t.own := h.tracks _ hcall
    refine ⟨ok_of_idle rfl rfl, ?_⟩
    rw [slots, slots, Option.toFinset_none, Finset.union_empty]
  · cases ht

end Thread

namespace Threads

variable {ι : Type} [DecidableEq ι]

def set (s : Threads ι) (i : ι) (t : Thread) : Threads ι := { s with thr := Function.update s.thr i t }

def step : ThreadEvent ι → Threads ι → Option (Threads ι)
  | .acquire i, s => (s.thr i).startAcquire.map (s.set i)
  | .release i id, s => ((s.thr i).startRelease id).map (s.set i)
  | .run i, s => ((s.thr i).run s.reg).map fun r => { s.set i r.1 with reg := r.2 }
  | .ret i, s => (s.thr i).ret.map (s.set i)

/-- Every thread keeps to its slots, and the bits are those of the slots that threads have. -/
structure Inv (s : Threads ι) : Prop where
  ok : ∀ i, (s.thr i).Ok
  allotted : Allotted (fun i => (s.thr i).slots) s.reg.activeSlots

variable {s s' : Threads ι} {e : ThreadEvent ι} {es : List (ThreadEvent ι)}

theorem Inv.set (h : Inv s) {i : ι} {t : Thread} {reg : ThreadLocalRegistry} (ht : t.Ok)
    (hm : Moves (s.thr i).slots s.reg.activeSlots t.slots reg.activeSlots) :
    Inv { s.set i t with reg := reg } where
  ok j := by
    rcases eq_or_ne j i with rfl | hne
    · simpa [Threads.set] using ht
    · simpa [Threads.set, Function.update_of_ne hne] using h.ok j
  allotted := by
    have hslots : (fun j => (Function.update s.thr i t j).slots) =
        Function.update (fun j => (s.thr j).slots) i t.slots := by
      funext j
      exact Function.apply_update (fun _ t => Thread.slots t) s.thr i t j
    have hallotted := h.allotted.moves hm
    rw [← hslots] at hallotted
    exact hallotted

omit [DecidableEq ι] in
theorem Inv.slots_subset (h : Inv s) (i : ι) : (s.thr i).slots ⊆ s.reg.activeSlots :=
  fun id hid => (h.allotted.covers id).2 ⟨i, hid⟩

omit [DecidableEq ι] in
theorem Inv.held_subset (h : Inv s) (i : ι) : (s.thr i).held ⊆ s.reg.activeSlots :=
  Finset.subset_union_left.trans (h.slots_subset i)

theorem Inv.step (h : Inv s) (hs : step e s = some s') : Inv s' := by
  cases e with
  | acquire i =>
    obtain ⟨t, ht, rfl⟩ := Option.map_eq_some_iff.1 hs
    obtain ⟨hok, hslots⟩ := (h.ok i).startAcquire ht
    exact h.set hok (hslots ▸ .keep)
  | release i id =>
    obtain ⟨t, ht, rfl⟩ := Option.map_eq_some_iff.1 hs
    have hlt : ∀ id ∈ (s.thr i).held, id < 128 := fun id hid => (mem_activeSlots.1 (h.held_subset i hid)).1
    obtain ⟨hok, hslots⟩ := (h.ok i).startRelease hlt ht
    exact h.set hok (hslots ▸ .keep)
  | run i =>
    obtain ⟨r, ht, rfl⟩ := Option.map_eq_some_iff.1 hs
    obtain ⟨hok, hmoves⟩ := (h.ok i).run (h.held_subset i) ht
    exact h.set hok hmoves
  | ret i =>
    obtain ⟨t, ht, rfl⟩ := Option.map_eq_some_iff.1 hs
    obtain ⟨hok, hslots⟩ := (h.ok i).ret ht
    exact h.set hok (hslots ▸ .keep)

omit [DecidableEq ι] in
theorem inv_init : Inv ({} : Threads ι) where
  ok i := Thread.ok_of_idle rfl rfl
  allotted := by
    rw [activeSlots_init]
    exact Allotted.empty

/-- **One owner for each slot.** -/
theorem slots_owned (h : tries step es {} = some s) :
    (∀ i j id, id ∈ (s.thr i).slots → id ∈ (s.thr j).slots → i = j) ∧
    ∀ id ∈ s.reg.activeSlots, ∃ i, id ∈ (s.thr i).slots := by
  have hinv : Inv s := tries_inv (fun _ _ _ hs hstep => hs.step hstep) h inv_init
  exact ⟨hinv.allotted.exclusive, fun id hid => (hinv.allotted.covers id).1 hid⟩

/-- Two threads race for the first slot. -/
def race : List (ThreadEvent ℕ) :=
  [.acquire 1, .acquire 2, .run 1, .run 2, .run 1, .run 2, .run 2, .run 2, .run 1, .ret 1]

theorem slots_owned_race : ∃ s, tries step race {} = some s ∧ (s.thr 1).slots = {0} ∧ (s.thr 2).slots = {1} ∧
    (∀ i j id, id ∈ (s.thr i).slots → id ∈ (s.thr j).slots → i = j) ∧
    ∀ id ∈ s.reg.activeSlots, ∃ i, id ∈ (s.thr i).slots := by
  have h : tries step race {} = some _ := rfl
  exact ⟨_, h, by decide, by decide, slots_owned h⟩

end Threads

end StreamGate.Metrics

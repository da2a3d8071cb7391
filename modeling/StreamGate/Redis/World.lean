import Mathlib.Data.List.Sort
import StreamGate.Lib.Interleave
import StreamGate.Lib.Decimal
import StreamGate.Redis.Keys

/-!
# Redis

The part of Redis the program uses: hashes with an expiry time, sets and sorted sets, and the
commands on them, each of which is atomic.  The prefixes of the keys fix their types, so each type
has its own table and a command never meets a key of another type.

The `World` also has the system clock.  Time passes only through `advance`, which also drops the
keys whose time to live has run out: an expired key is gone for every later command.
-/

namespace StreamGate.Redis

open StreamGate.Lib

/-! ### Values -/

/-- A stored hash: its fields and, if it has a time to live, the millisecond after which it is
gone. -/
structure Hash where
  fields : Fields
  expireAt : Option ℤ

/-- A stored set.  The order of the members is that of `SMEMBERS` and means nothing. -/
structure RSet where
  elems : List String
  nodup : elems.Nodup
  deriving DecidableEq

namespace RSet

instance : Membership String RSet := ⟨fun s m => m ∈ s.elems⟩

instance (m : String) (s : RSet) : Decidable (m ∈ s) := inferInstanceAs (Decidable (m ∈ s.elems))

/-- A set without members is a key that does not exist. -/
def empty : RSet := ⟨[], List.nodup_nil⟩

/-- `SADD`. -/
def add (s : RSet) (m : String) : RSet :=
  if h : m ∈ s.elems then s
  else ⟨s.elems ++ [m], by
    rw [List.nodup_append]
    exact ⟨s.nodup, List.nodup_singleton m, fun a ha b hb => by
      rintro rfl; exact h (List.mem_singleton.1 hb ▸ ha)⟩⟩

/-- `SREM`. -/
def rem (s : RSet) (m : String) : RSet := ⟨s.elems.erase m, s.nodup.erase m⟩

theorem mem_def {s : RSet} {m : String} : m ∈ s ↔ m ∈ s.elems := Iff.rfl

@[simp] theorem mem_empty {m : String} : m ∈ empty ↔ False := by simp [mem_def, empty]

@[simp] theorem mem_add {s : RSet} {m x : String} : m ∈ s.add x ↔ m ∈ s ∨ m = x := by
  unfold add
  split
  · rename_i h
    exact ⟨Or.inl, fun h' => h'.elim id fun e => e ▸ h⟩
  · simp [mem_def]

@[simp] theorem mem_rem {s : RSet} {m x : String} : m ∈ s.rem x ↔ m ∈ s ∧ m ≠ x := by
  rw [mem_def, rem, s.nodup.mem_erase_iff]
  exact and_comm

theorem rem_of_not_mem {s : RSet} {m : String} (h : ¬ m ∈ s) : s.rem m = s := by
  cases s with
  | mk l hl =>
    have : l.erase m = l := List.erase_of_not_mem h
    simp only [rem, this]

/-- `SREM` undoes the `SADD` of a new member. -/
theorem rem_add {s : RSet} {m : String} (h : ¬ m ∈ s) : (s.add m).rem m = s := by
  cases s with
  | mk l hl =>
    have hm : m ∉ l := h
    have : (l ++ [m]).erase m = l := by rw [List.erase_append_right _ hm]; simp
    simp only [add, hm, dite_false, rem, this]

theorem eq_empty_iff {s : RSet} : s = empty ↔ ∀ m, ¬ m ∈ s := by
  constructor
  · rintro rfl m; simp
  · intro h
    cases s with
    | mk l hl =>
      have : l = [] := List.eq_nil_iff_forall_not_mem.2 h
      subst this; rfl

end RSet

/-- A stored sorted set: its members, each with one score. -/
structure ZSet where
  elems : List (Key × ℤ)
  nodup : (elems.map Prod.fst).Nodup
  deriving DecidableEq

namespace ZSet

def empty : ZSet := ⟨[], List.nodup_nil⟩

/-- `ZREM`. -/
def rem (z : ZSet) (m : Key) : ZSet :=
  ⟨z.elems.filter fun e => e.1 ≠ m, z.nodup.sublist (List.filter_sublist.map _)⟩

/-- `ZADD`: the score of a member that is there is replaced. -/
def add (z : ZSet) (m : Key) (score : ℤ) : ZSet :=
  ⟨(z.rem m).elems ++ [(m, score)], by
    rw [List.map_append, List.nodup_append]
    refine ⟨(z.rem m).nodup, List.nodup_singleton m, ?_⟩
    intro a ha b hb
    obtain ⟨e, he, rfl⟩ := List.mem_map.1 ha
    obtain rfl : b = m := by simpa using hb
    simpa using (List.mem_filter.1 he).2⟩

/-- The score of a member. -/
def score (z : ZSet) (m : Key) : Option ℤ := (z.elems.find? fun e => e.1 = m).map Prod.snd

/-- The order of a sorted set: by score, then by the text of the member. -/
def le (a b : Key × ℤ) : Prop := a.2 < b.2 ∨ (a.2 = b.2 ∧ a.1.name ≤ b.1.name)

instance : DecidableRel le := fun a b =>
  inferInstanceAs (Decidable (a.2 < b.2 ∨ (a.2 = b.2 ∧ a.1.name ≤ b.1.name)))

/-- `ZRANGEBYSCORE` with closed bounds. -/
def rangeByScore (z : ZSet) (lo hi : ℤ) : List Key :=
  ((z.elems.filter fun e => lo ≤ e.2 ∧ e.2 ≤ hi).insertionSort le).map Prod.fst

theorem score_eq_some {z : ZSet} {m : Key} {x : ℤ} : z.score m = some x ↔ (m, x) ∈ z.elems := by
  unfold score
  constructor
  · intro h
    obtain ⟨e, he, rfl⟩ := Option.map_eq_some_iff.1 h
    obtain rfl : e.1 = m := by simpa using List.find?_some he
    exact List.mem_of_find?_eq_some he
  · intro h
    obtain ⟨e, he⟩ : ∃ e, z.elems.find? (fun e => e.1 = m) = some e := by
      rw [← Option.isSome_iff_exists, List.find?_isSome]
      exact ⟨_, h, by simp⟩
    have hm : e.1 = m := by simpa using List.find?_some he
    have : e = (m, x) := List.inj_on_of_nodup_map z.nodup (List.mem_of_find?_eq_some he) h hm
    rw [he, this]; rfl

@[simp] theorem score_empty (m : Key) : empty.score m = none := rfl

theorem score_eq_none {z : ZSet} {m : Key} : z.score m = none ↔ ∀ x, (m, x) ∉ z.elems := by
  rw [Option.eq_none_iff_forall_ne_some]
  exact forall_congr' fun x => not_congr score_eq_some

@[simp] theorem score_rem (z : ZSet) (m m' : Key) :
    (z.rem m).score m' = if m' = m then none else z.score m' := by
  ext x
  rw [score_eq_some]
  split
  · rename_i h; simp [rem, h]
  · rename_i h; rw [score_eq_some]; simp [rem, h]

@[simp] theorem score_add (z : ZSet) (m m' : Key) (x : ℤ) :
    (z.add m x).score m' = if m' = m then some x else z.score m' := by
  ext y
  rw [score_eq_some]
  split
  · rename_i h; simp [add, rem, h, eq_comm]
  · rename_i h; rw [score_eq_some]; simp [add, rem, h]

/-- `ZREM` of a member that is not there. -/
theorem rem_of_score_none {z : ZSet} {m : Key} (h : z.score m = none) : z.rem m = z := by
  cases z with
  | mk l hl =>
    have hm := score_eq_none.1 h
    have : (l.filter fun e => e.1 ≠ m) = l := by
      refine List.filter_eq_self.2 fun e he => decide_eq_true ?_
      rintro rfl
      exact hm e.2 he
    simp only [rem, this]

theorem mem_rangeByScore {z : ZSet} {lo hi : ℤ} {m : Key} :
    m ∈ z.rangeByScore lo hi ↔ ∃ x, z.score m = some x ∧ lo ≤ x ∧ x ≤ hi := by
  simp only [rangeByScore, List.mem_map, List.mem_insertionSort, List.mem_filter, decide_eq_true_eq,
    Prod.exists, exists_and_right, exists_eq_right, score_eq_some]

theorem nodup_rangeByScore (z : ZSet) (lo hi : ℤ) : (z.rangeByScore lo hi).Nodup := by
  unfold rangeByScore
  rw [((List.perm_insertionSort le _).map Prod.fst).nodup_iff]
  exact z.nodup.sublist (List.filter_sublist.map _)

end ZSet

/-! ### The state -/

/-- The keyspace and the clock, in nanoseconds since the epoch. -/
structure World where
  hashes : Key → Option Hash
  sets : Key → RSet
  zsets : Key → ZSet
  clock : ℤ

theorem World.ext {w w' : World} (hh : ∀ k, w'.hashes k = w.hashes k) (hs : ∀ k, w'.sets k = w.sets k)
    (hz : ∀ k, w'.zsets k = w.zsets k) (hc : w'.clock = w.clock) : w' = w := by
  cases w with
  | mk h s z c =>
    cases w' with
    | mk h' s' z' c' =>
      obtain rfl : h' = h := funext hh
      obtain rfl : s' = s := funext hs
      obtain rfl : z' = z := funext hz
      obtain rfl : c' = c := hc
      rfl

/-- `duration_cast<milliseconds>` of a time since the epoch. -/
def ms (t : ℤ) : ℤ := t.tdiv 1000000

theorem ms_mono {a b : ℤ} (h : a ≤ b) : ms a ≤ ms b := Int.tdiv_le_tdiv (by decide) h

/-- Nothing is stored. -/
def World.initial (clock : ℤ) : World := ⟨fun _ => none, fun _ => .empty, fun _ => .empty, clock⟩

/-! ### Commands -/

/-- The commands the program sends, and the reading of the system clock. -/
inductive Cmd where
  | hgetall (k : Key)
  | hset (k : Key) (fields : Fields)
  | hincrby (k : Key) (f : Field) (increment : ℤ)
  | sadd (k : Key) (m : String)
  | srem (k : Key) (m : String)
  | smembers (k : Key)
  | scard (k : Key)
  | zadd (k : Key) (m : Key) (score : ℤ)
  | zrem (k : Key) (m : Key)
  | zrangebyscore (k : Key) (lo hi : ℤ)
  | expire (k : Key) (seconds : ℤ)
  | del (k : Key)
  | existsKey (k : Key)
  | now

/-- The reply to a command.  `HGETALL` of a missing key is the empty map, here `none`: a stored
hash is never empty. -/
def Cmd.Reply : Cmd → Type
  | .hgetall _ => Option Fields
  | .hset _ _ => Unit
  | .hincrby _ _ _ => ℤ
  | .sadd _ _ => Bool
  | .srem _ _ => Bool
  | .smembers _ => List String
  | .scard _ => ℕ
  | .zadd _ _ _ => Bool
  | .zrem _ _ => Bool
  | .zrangebyscore _ _ _ => List Key
  | .expire _ _ => Bool
  | .del _ => Bool
  | .existsKey _ => Bool
  | .now => ℤ

/-- The interface of Redis and the clock. -/
abbrev iface : Iface := ⟨Cmd, Cmd.Reply⟩

/-- The fields of a hash after `HSET`: the given ones over those that are there. -/
def Fields.over (new old : Fields) : Fields := fun f => (new f).orElse fun _ => old f

/-- The integer in a field, `0` if the field is missing.  Only `HINCRBY` writes such a field. -/
def counterOf (fields : Fields) (f : Field) : ℤ :=
  ((fields f).bind fun s => (Decimal.parse s).map Decimal.signed).getD 0

namespace World

/-- The fields stored at a key. -/
def fieldsAt (w : World) (k : Key) : Option Fields := (w.hashes k).map Hash.fields

/-- Whether a key exists. -/
def hasKey (w : World) (k : Key) : Bool :=
  (w.hashes k).isSome || !(w.sets k).elems.isEmpty || !(w.zsets k).elems.isEmpty

/-- `HSET` and `HMSET`: a new hash has no time to live, an old one keeps its own. -/
def hset (w : World) (k : Key) (fields : Fields) : World :=
  { w with
    hashes := Function.update w.hashes k (some
      ⟨fields.over ((w.fieldsAt k).getD fun _ => none), (w.hashes k).bind Hash.expireAt⟩) }

def setSet (w : World) (k : Key) (s : RSet) : World := { w with sets := Function.update w.sets k s }

def setZset (w : World) (k : Key) (z : ZSet) : World := { w with zsets := Function.update w.zsets k z }

/-- `EXPIRE` of a hash. -/
def expire (w : World) (k : Key) (seconds : ℤ) : World :=
  { w with
    hashes := Function.update w.hashes k
      ((w.hashes k).map fun h => { h with expireAt := some (ms w.clock + 1000 * seconds) }) }

/-- `DEL`. -/
def del (w : World) (k : Key) : World :=
  { w with
    hashes := Function.update w.hashes k none
    sets := Function.update w.sets k .empty
    zsets := Function.update w.zsets k .empty }

section Frame

variable (w : World) (k k' : Key)

@[simp] theorem hset_sets (f : Fields) : (w.hset k f).sets = w.sets := rfl
@[simp] theorem hset_zsets (f : Fields) : (w.hset k f).zsets = w.zsets := rfl
@[simp] theorem hset_clock (f : Fields) : (w.hset k f).clock = w.clock := rfl
@[simp] theorem setSet_hashes (s : RSet) : (w.setSet k s).hashes = w.hashes := rfl
@[simp] theorem setSet_zsets (s : RSet) : (w.setSet k s).zsets = w.zsets := rfl
@[simp] theorem setSet_clock (s : RSet) : (w.setSet k s).clock = w.clock := rfl
@[simp] theorem setZset_hashes (z : ZSet) : (w.setZset k z).hashes = w.hashes := rfl
@[simp] theorem setZset_sets (z : ZSet) : (w.setZset k z).sets = w.sets := rfl
@[simp] theorem setZset_clock (z : ZSet) : (w.setZset k z).clock = w.clock := rfl
@[simp] theorem expire_sets (n : ℤ) : (w.expire k n).sets = w.sets := rfl
@[simp] theorem expire_zsets (n : ℤ) : (w.expire k n).zsets = w.zsets := rfl
@[simp] theorem expire_clock (n : ℤ) : (w.expire k n).clock = w.clock := rfl
@[simp] theorem del_clock : (w.del k).clock = w.clock := rfl

/-- The hash an `HSET` leaves at its key. -/
theorem hset_self (f : Fields) : (w.hset k f).hashes k =
    some ⟨f.over ((w.fieldsAt k).getD fun _ => none), (w.hashes k).bind Hash.expireAt⟩ :=
  Function.update_self ..

theorem hset_of_ne (f : Fields) (h : k' ≠ k) : (w.hset k f).hashes k' = w.hashes k' :=
  Function.update_of_ne h ..

theorem expire_self (n : ℤ) : (w.expire k n).hashes k =
    (w.hashes k).map fun h => { h with expireAt := some (ms w.clock + 1000 * n) } :=
  Function.update_self ..

theorem expire_of_ne (n : ℤ) (h : k' ≠ k) : (w.expire k n).hashes k' = w.hashes k' :=
  Function.update_of_ne h ..

theorem setSet_self (s : RSet) : (w.setSet k s).sets k = s := Function.update_self ..

theorem setSet_of_ne (s : RSet) (h : k' ≠ k) : (w.setSet k s).sets k' = w.sets k' :=
  Function.update_of_ne h ..

theorem setZset_self (z : ZSet) : (w.setZset k z).zsets k = z := Function.update_self ..

theorem setZset_eta : w.setZset k (w.zsets k) = w := by simp [setZset]

theorem setZset_setZset (z z' : ZSet) : (w.setZset k z).setZset k z' = w.setZset k z' := by
  simp [setZset]

theorem setZset_of_ne (z : ZSet) (h : k' ≠ k) : (w.setZset k z).zsets k' = w.zsets k' :=
  Function.update_of_ne h ..

/-! The tables after an update, key by key. -/

theorem hset_apply (f : Fields) : (w.hset k f).hashes k' =
    if k' = k then some ⟨f.over ((w.fieldsAt k).getD fun _ => none), (w.hashes k).bind Hash.expireAt⟩
    else w.hashes k' := Function.update_apply ..

theorem expire_apply (n : ℤ) : (w.expire k n).hashes k' =
    if k' = k then (w.hashes k).map fun h => { h with expireAt := some (ms w.clock + 1000 * n) }
    else w.hashes k' := Function.update_apply ..

theorem setSet_apply (s : RSet) : (w.setSet k s).sets k' = if k' = k then s else w.sets k' :=
  Function.update_apply ..

theorem setZset_apply (z : ZSet) : (w.setZset k z).zsets k' = if k' = k then z else w.zsets k' :=
  Function.update_apply ..

theorem del_hashes_apply : (w.del k).hashes k' = if k' = k then none else w.hashes k' :=
  Function.update_apply ..

theorem del_sets_apply : (w.del k).sets k' = if k' = k then .empty else w.sets k' :=
  Function.update_apply ..

theorem del_zsets_apply : (w.del k).zsets k' = if k' = k then .empty else w.zsets k' :=
  Function.update_apply ..

theorem del_hashes_self : (w.del k).hashes k = none := Function.update_self ..
theorem del_sets_self : (w.del k).sets k = .empty := Function.update_self ..

theorem del_hashes_of_ne (h : k' ≠ k) : (w.del k).hashes k' = w.hashes k' := Function.update_of_ne h ..
theorem del_sets_of_ne (h : k' ≠ k) : (w.del k).sets k' = w.sets k' := Function.update_of_ne h ..
theorem del_zsets_of_ne (h : k' ≠ k) : (w.del k).zsets k' = w.zsets k' := Function.update_of_ne h ..

end Frame

end World

/-- The effect of a command. -/
def handle : (c : iface.Cmd) → World → iface.Reply c × World
  | .hgetall k, w => (w.fieldsAt k, w)
  | .hset k fields, w => ((), w.hset k fields)
  | .hincrby k f n, w =>
    let v := counterOf ((w.fieldsAt k).getD fun _ => none) f + n
    (v, w.hset k (Function.update (fun _ => none) f (some (Decimal.to_string v))))
  | .sadd k m, w => (!decide (m ∈ w.sets k), w.setSet k ((w.sets k).add m))
  | .srem k m, w => (decide (m ∈ w.sets k), w.setSet k ((w.sets k).rem m))
  | .smembers k, w => ((w.sets k).elems, w)
  | .scard k, w => ((w.sets k).elems.length, w)
  | .zadd k m x, w => (((w.zsets k).score m).isNone, w.setZset k ((w.zsets k).add m x))
  | .zrem k m, w => (((w.zsets k).score m).isSome, w.setZset k ((w.zsets k).rem m))
  | .zrangebyscore k lo hi, w => ((w.zsets k).rangeByScore lo hi, w)
  | .expire k n, w => ((w.hashes k).isSome, w.expire k n)
  | .del k, w => (w.hasKey k, w.del k)
  | .existsKey k, w => (w.hasKey k, w)
  | .now, w => (w.clock, w)

section Handle

variable (w : World) (k : Key)

/-- The counter after `HINCRBY`. -/
def World.hincrby (w : World) (k : Key) (f : Field) (n : ℤ) : World :=
  w.hset k (Function.update (fun _ => none) f (some (Decimal.to_string
    (counterOf ((w.fieldsAt k).getD fun _ => none) f + n))))

@[simp] theorem after_hgetall : (handle (.hgetall k) w).2 = w := rfl
@[simp] theorem after_hset (f : Fields) : (handle (.hset k f) w).2 = w.hset k f := rfl
@[simp] theorem after_hincrby (f : Field) (n : ℤ) :
    (handle (.hincrby k f n) w).2 = w.hincrby k f n := rfl
@[simp] theorem after_sadd (m : String) :
    (handle (.sadd k m) w).2 = w.setSet k ((w.sets k).add m) := rfl
@[simp] theorem after_srem (m : String) :
    (handle (.srem k m) w).2 = w.setSet k ((w.sets k).rem m) := rfl
@[simp] theorem after_smembers : (handle (.smembers k) w).2 = w := rfl
@[simp] theorem after_scard : (handle (.scard k) w).2 = w := rfl
@[simp] theorem after_zadd (m : Key) (x : ℤ) :
    (handle (.zadd k m x) w).2 = w.setZset k ((w.zsets k).add m x) := rfl
@[simp] theorem after_zrem (m : Key) :
    (handle (.zrem k m) w).2 = w.setZset k ((w.zsets k).rem m) := rfl
@[simp] theorem after_zrangebyscore (lo hi : ℤ) : (handle (.zrangebyscore k lo hi) w).2 = w := rfl
@[simp] theorem after_expire (n : ℤ) : (handle (.expire k n) w).2 = w.expire k n := rfl
@[simp] theorem after_del : (handle (.del k) w).2 = w.del k := rfl
@[simp] theorem after_existsKey : (handle (.existsKey k) w).2 = w := rfl
@[simp] theorem after_now : (handle .now w).2 = w := rfl

/-- No command moves the clock. -/
@[simp] theorem after_clock (c : Cmd) : (handle c w).2.clock = w.clock := by cases c <;> rfl

end Handle

/-- The commands that only read. -/
def Reads : Cmd → Prop
  | .hgetall _ | .smembers _ | .scard _ | .zrangebyscore _ _ _ | .existsKey _ | .now => True
  | _ => False

theorem Reads.after {c : Cmd} (h : Reads c) (w : World) : (handle c w).2 = w := by
  cases c <;> first | rfl | exact h.elim

/-! ### Frame -/

/-- The key a command is sent to. -/
def Cmd.key : Cmd → Option Key
  | .hgetall k | .hset k _ | .hincrby k _ _ | .sadd k _ | .srem k _ | .smembers k | .scard k | .zadd k _ _
  | .zrem k _ | .zrangebyscore k _ _ | .expire k _ | .del k | .existsKey k => some k
  | .now => none

/-- Two stores hold the same at a key. -/
structure SameAt (k : Key) (w w' : World) : Prop where
  hash : w'.hashes k = w.hashes k
  set : w'.sets k = w.sets k
  zset : w'.zsets k = w.zsets k

namespace SameAt

variable {k l : Key} {w w' w'' : World}

theorem refl (k : Key) (w : World) : SameAt k w w := ⟨rfl, rfl, rfl⟩

theorem trans (h : SameAt k w w') (h' : SameAt k w' w'') : SameAt k w w'' :=
  ⟨h'.hash.trans h.hash, h'.set.trans h.set, h'.zset.trans h.zset⟩

theorem hset (h : k ≠ l) (f : Fields) : SameAt k w (w.hset l f) := ⟨w.hset_of_ne l k f h, rfl, rfl⟩

theorem setSet (h : k ≠ l) (s : RSet) : SameAt k w (w.setSet l s) := ⟨rfl, w.setSet_of_ne l k s h, rfl⟩

theorem setZset (h : k ≠ l) (z : ZSet) : SameAt k w (w.setZset l z) := ⟨rfl, rfl, w.setZset_of_ne l k z h⟩

theorem expire (h : k ≠ l) (n : ℤ) : SameAt k w (w.expire l n) := ⟨w.expire_of_ne l k n h, rfl, rfl⟩

theorem del (h : k ≠ l) : SameAt k w (w.del l) :=
  ⟨w.del_hashes_of_ne l k h, w.del_sets_of_ne l k h, w.del_zsets_of_ne l k h⟩

/-- A command changes nothing at the other keys. -/
theorem handle {c : Cmd} (h : c.key ≠ some k) : SameAt k w (handle c w).2 := by
  have hne : ∀ l, c.key = some l → k ≠ l := by
    rintro l hl rfl
    exact h hl
  cases c with
  | hset l f => exact .hset (hne l rfl) f
  | hincrby l f n => exact .hset (hne l rfl) _
  | sadd l m => exact .setSet (hne l rfl) _
  | srem l m => exact .setSet (hne l rfl) _
  | zadd l m x => exact .setZset (hne l rfl) _
  | zrem l m => exact .setZset (hne l rfl) _
  | expire l n => exact .expire (hne l rfl) n
  | del l => exact .del (hne l rfl)
  | hgetall l => exact .refl k w
  | smembers l => exact .refl k w
  | scard l => exact .refl k w
  | zrangebyscore l lo hi => exact .refl k w
  | existsKey l => exact .refl k w
  | now => exact .refl k w

end SameAt

/-! ### Time -/

/-- Whether a hash is gone at the millisecond `t`. -/
def Hash.expired (t : ℤ) (h : Hash) : Bool := h.expireAt.any fun d => d < t

/-- Time passes: the clock moves on to `t`, and what has expired by then is gone.  The clock does
not move back. -/
def advance (t : ℤ) (w : World) : World :=
  if w.clock ≤ t then
    { w with
      hashes := fun k => (w.hashes k).filter fun h => !h.expired (ms t)
      clock := t }
  else w

/-- Time takes a hash away or leaves it as it is. -/
theorem hashes_advance (t : ℤ) (w : World) (k : Key) :
    (advance t w).hashes k = none ∨ (advance t w).hashes k = w.hashes k := by
  unfold advance
  split
  · show Option.filter _ (w.hashes k) = none ∨ Option.filter _ (w.hashes k) = w.hashes k
    cases w.hashes k with
    | none => exact .inl rfl
    | some h =>
      by_cases hh : (!h.expired (ms t)) = true
      · exact .inr (Option.filter_some_pos hh)
      · exact .inl (Option.filter_some_neg (Bool.not_eq_true _ ▸ hh))
  · exact .inr rfl

/-- Time passes and nothing runs out. -/
def tick (t : ℤ) (w : World) : World := { w with clock := max w.clock t }

/-- Redis under a schedule: the commands above, and time that passes between them. -/
def machine : Machine iface World ℤ := ⟨handle, advance⟩

/-- A program over Redis. -/
abbrev RProg (α : Type) := Prog iface α

namespace World

/-- The run of a program alone, at the time the clock shows. -/
def run {α : Type} (w : World) (p : RProg α) : α × World := Prog.run handle p w

/-- The run of a program alone in which the commands of the pattern `fails` fail. -/
def runWith {α : Type} (w : World) (fails : ℕ → Bool) (p : RProg α) : α × World :=
  Prog.runWith handle p fails w

end World

end StreamGate.Redis

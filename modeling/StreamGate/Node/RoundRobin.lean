import Mathlib.Data.List.Perm.Subperm
import Mathlib.Data.Nat.ModEq
import StreamGate.Node.Config

/-!
# Calls of `selectBestNode` in a row

One counter serves both clusters, so the node that a call gets depends on how many calls of either protocol were
made before it (`round_robin_iff`).  `NodeConfig::getRoundRobinEndpoint` has a counter for each category.
-/

namespace StreamGate.Node

open StreamGate.Scheduler StreamGate.Task

/-- A call, the index into the list of its cluster, and what it returns. -/
structure Call where
  protocol : StreamProtocol
  entry : ℕ
  node : String × Int32

def Call.cluster (call : Call) : Cluster := Node.cluster call.protocol

/-- `_nodeIndex` after a call that finds it at `nodeIndex`: an empty list is answered before the counter is read. -/
def nextIndex (config : Scheduler.NodeConfig) (nodeIndex : UInt64) (protocol : StreamProtocol) : UInt64 :=
  if (cluster protocol).nodes config = [] then nodeIndex else nodeIndex + 1

/-- The calls of a sequence of requests, when `_nodeIndex` stands at `nodeIndex`. -/
def serve (config : Scheduler.NodeConfig) (nodeIndex : UInt64) : List StreamProtocol → List Call
  | [] => []
  | protocol :: protocols =>
    { protocol := protocol
      entry := nodeIndex.toNat % ((cluster protocol).nodes config).length
      node := selectBestNode config nodeIndex protocol } :: serve config (nextIndex config nodeIndex protocol) protocols

/-- The calls that a cluster serves. -/
def servedBy (config : Scheduler.NodeConfig) (c : Cluster) (protocols : List StreamProtocol) : List Call :=
  (serve config 0 protocols).filter fun call => call.cluster = c

/-- Their places in the sequence. -/
def places (c : Cluster) (protocols : List StreamProtocol) : List ℕ :=
  (protocols.zipIdx.filter fun x => cluster x.1 = c).map Prod.snd

/-- Every endpoint of the list is returned once. -/
structure EachOnce (nodes : List NodeEndpoint) (calls : List Call) : Prop where
  entries : (calls.map Call.entry).Perm (List.range nodes.length)
  node : ∀ call ∈ calls, ∃ node, nodes[call.entry]? = some node ∧ call.node = (node.host, node.port)

/-! ### Calls and places -/

section Places

variable {config : Scheduler.NodeConfig} {c : Cluster} {protocols : List StreamProtocol}

/-- The call at a place. -/
def callAt (config : Scheduler.NodeConfig) (x : StreamProtocol × ℕ) : Call where
  protocol := x.1
  entry := (UInt64.ofNat x.2).toNat % ((cluster x.1).nodes config).length
  node := selectBestNode config (UInt64.ofNat x.2) x.1

theorem serve_eq (hne : ∀ c : Cluster, c.nodes config ≠ []) (n : ℕ) (protocols : List StreamProtocol) :
    serve config (UInt64.ofNat n) protocols = (protocols.zipIdx n).map (callAt config) := by
  induction protocols generalizing n with
  | nil => rfl
  | cons protocol protocols ih =>
    have hnext : nextIndex config (UInt64.ofNat n) protocol = UInt64.ofNat (n + 1) := by
      rw [nextIndex, if_neg (hne _)]
      exact (UInt64.ofNat_add n 1).symm
    rw [serve, hnext, ih, List.zipIdx_cons, List.map_cons]
    rfl

theorem servedBy_eq (hne : ∀ c : Cluster, c.nodes config ≠ []) : servedBy config c protocols =
    (protocols.zipIdx.filter fun x => cluster x.1 = c).map (callAt config) := by
  unfold servedBy
  have hserve : serve config 0 protocols = protocols.zipIdx.map (callAt config) := serve_eq hne 0 protocols
  rw [hserve, List.filter_map]
  rfl

/-- The places stand in their order. -/
theorem places_pairwise (c : Cluster) (protocols : List StreamProtocol) :
    (places c protocols).Pairwise (· < ·) := by
  have hsub : (places c protocols).Sublist (protocols.zipIdx.map Prod.snd) := (List.filter_sublist).map Prod.snd
  rw [List.zipIdx_map_snd] at hsub
  exact List.Pairwise.sublist hsub List.pairwise_lt_range'

theorem lt_of_mem_zipIdx {x : StreamProtocol × ℕ} (hx : x ∈ protocols.zipIdx) : x.2 < protocols.length := by
  simpa using List.snd_lt_of_mem_zipIdx hx

end Places

/-- Indices below `n` are each there once if no two are equal. -/
theorem perm_range_iff {l : List ℕ} {n : ℕ} (hlen : l.length = n) (hlt : ∀ i ∈ l, i < n) :
    l.Perm (List.range n) ↔ l.Nodup := by
  constructor
  · exact fun h => h.nodup_iff.2 List.nodup_range
  · intro h
    have hsub : l ⊆ List.range n := fun i hi => List.mem_range.2 (hlt i hi)
    exact (List.subperm_of_subset h hsub).perm_of_length_le (by rw [List.length_range, hlen])

/-- Increasing numbers have different remainders if no difference is divisible. -/
theorem nodup_mod_iff {l : List ℕ} {n : ℕ} (hl : l.Pairwise (· < ·)) :
    (l.map (· % n)).Nodup ↔ l.Pairwise fun a b => ¬ n ∣ b - a := by
  rw [List.Nodup, List.pairwise_map]
  refine ⟨fun h => ?_, fun h => ?_⟩
  · refine (hl.and h).imp fun {a b} hab hdvd => hab.2 ?_
    exact (Nat.modEq_iff_dvd' hab.1.le).2 hdvd
  · refine (hl.and h).imp fun {a b} hab heq => hab.2 ?_
    exact (Nat.modEq_iff_dvd' hab.1.le).1 heq

section Windows

variable {config : Scheduler.NodeConfig} {c : Cluster} {protocols : List StreamProtocol}

/-- Calls in a row that a cluster serves, by their places. -/
theorem eachOnce_iff (hne : c.nodes config ≠ []) (hlen : protocols.length < 2 ^ 64) {w : List (StreamProtocol × ℕ)}
    (hw : w <:+: protocols.zipIdx.filter fun x => cluster x.1 = c) (hn : w.length = (c.nodes config).length) :
    EachOnce (c.nodes config) (w.map (callAt config)) ↔
      (w.map Prod.snd).Pairwise fun a b => ¬ (c.nodes config).length ∣ b - a := by
  have hmem : ∀ x ∈ w, cluster x.1 = c ∧ x.2 < 2 ^ 64 := by
    intro x hx
    obtain ⟨hx, hc⟩ := List.mem_filter.1 (hw.subset hx)
    exact ⟨of_decide_eq_true hc, (lt_of_mem_zipIdx hx).trans hlen⟩
  have hentry : (w.map (callAt config)).map Call.entry = (w.map Prod.snd).map (· % (c.nodes config).length) := by
    rw [List.map_map, List.map_map]
    refine List.map_congr_left fun x hx => ?_
    obtain ⟨rfl, hlt⟩ := hmem x hx
    show (UInt64.ofNat x.2).toNat % _ = x.2 % _
    rw [UInt64.toNat_ofNat_of_lt' hlt]
  have hpairwise : (w.map Prod.snd).Pairwise (· < ·) :=
    List.Pairwise.sublist (hw.map Prod.snd).sublist (places_pairwise c protocols)
  have hpos : 0 < (c.nodes config).length := List.length_pos_iff.2 hne
  have hperm : ((w.map (callAt config)).map Call.entry).Perm (List.range (c.nodes config).length) ↔
      (w.map Prod.snd).Pairwise fun a b => ¬ (c.nodes config).length ∣ b - a := by
    rw [hentry, perm_range_iff (by simpa using hn), nodup_mod_iff hpairwise]
    intro i hi
    obtain ⟨a, -, rfl⟩ := List.mem_map.1 hi
    exact Nat.mod_lt _ hpos
  refine ⟨fun h => hperm.1 h.entries, fun h => ⟨hperm.2 h, fun call hcall => ?_⟩⟩
  obtain ⟨x, hx, rfl⟩ := List.mem_map.1 hcall
  obtain ⟨rfl, -⟩ := hmem x hx
  exact selectBestNode_eq config (UInt64.ofNat x.2) hne

end Windows

/-- **When the selection is round robin.**  In every sequence of calls, the calls in a row that a cluster of `n` nodes
serves return each of its nodes once, exactly if among `n` of them in a row there are no two with a multiple of `n`
calls, of either cluster, from the one to the other. -/
theorem round_robin_iff (config : Scheduler.NodeConfig) (hrtmp : config.rtmp_srt ≠ []) (hhttp : config.http_hls ≠ [])
    (protocols : List StreamProtocol) (hlen : protocols.length < 2 ^ 64) :
    (∀ c w, w <:+: servedBy config c protocols → w.length = (c.nodes config).length → EachOnce (c.nodes config) w) ↔
      ∀ c v, v <:+: places c protocols → v.length = (c.nodes config).length →
        v.Pairwise fun a b => ¬ (c.nodes config).length ∣ b - a := by
  have hne : ∀ c : Cluster, c.nodes config ≠ [] := by
    intro c
    cases c with
    | rtmp_srt => exact hrtmp
    | http_hls => exact hhttp
  constructor
  · intro h c v hv hn
    obtain ⟨w, hw, rfl⟩ := List.infix_map_iff.1 hv
    rw [List.length_map] at hn
    refine (eachOnce_iff (hne c) hlen hw hn).1 (h c _ ?_ (by rw [List.length_map, hn]))
    rw [servedBy_eq hne]
    exact hw.map _
  · intro h c v hv hn
    rw [servedBy_eq hne] at hv
    obtain ⟨w, hw, rfl⟩ := List.infix_map_iff.1 hv
    rw [List.length_map] at hn
    exact (eachOnce_iff (hne c) hlen hw hn).2 (h c _ (hw.map _) (by rw [List.length_map, hn]))

/-! ### One cluster alone -/

/-- Numbers in a row are less than `n` apart if there are `n` of them. -/
theorem pairwise_of_infix_range {v : List ℕ} {m : ℕ} (hv : v <:+: List.range m) :
    v.Pairwise fun a b => ¬ v.length ∣ b - a := by
  obtain ⟨pre, post, h⟩ := hv
  rw [List.range_eq_range', List.append_assoc] at h
  obtain ⟨k, -, -, hrest⟩ := List.range'_eq_append_iff.1 h.symm
  obtain ⟨n, hle, rfl, -⟩ := List.range'_eq_append_iff.1 hrest.symm
  have hlt : (List.range' (0 + k * 1) n).Pairwise (· < ·) := List.pairwise_lt_range'
  refine hlt.imp_of_mem fun {a b} ha hb hab hdvd => ?_
  obtain ⟨i, hi, rfl⟩ := List.mem_range'.1 ha
  obtain ⟨j, hj, rfl⟩ := List.mem_range'.1 hb
  rw [List.length_range'] at hdvd
  have hle := Nat.le_of_dvd (Nat.sub_pos_of_lt hab) hdvd
  omega

/-- Calls for one cluster alone are round robin. -/
theorem places_of_one {c : Cluster} {protocols : List StreamProtocol} (h : ∀ protocol ∈ protocols, cluster protocol = c)
    {c' : Cluster} {v : List ℕ} (hv : v <:+: places c' protocols) : v.Pairwise fun a b => ¬ v.length ∣ b - a := by
  by_cases hc : c' = c
  · subst hc
    have hall : (protocols.zipIdx.filter fun x => cluster x.1 = c') = protocols.zipIdx :=
      List.filter_eq_self.2 fun x hx => decide_eq_true (h _ (List.fst_mem_of_mem_zipIdx hx))
    rw [places, hall, List.zipIdx_map_snd, ← List.range_eq_range'] at hv
    exact pairwise_of_infix_range hv
  · have hnone : (protocols.zipIdx.filter fun x => cluster x.1 = c') = [] :=
      List.filter_eq_nil_iff.2 fun x hx => by
        rw [h _ (List.fst_mem_of_mem_zipIdx hx), decide_eq_true_eq]
        exact Ne.symm hc
    rw [places, hnone, List.map_nil, List.infix_nil] at hv
    rw [hv]
    exact .nil

/-- Two nodes in each cluster. -/
def pairs : Scheduler.NodeConfig where
  rtmp_srt := [⟨"10.0.0.1", 1935⟩, ⟨"10.0.0.2", 1935⟩]
  http_hls := [⟨"10.0.1.1", 8080⟩, ⟨"10.0.1.2", 8080⟩]

theorem round_robin_rtmp :
    EachOnce (Cluster.rtmp_srt.nodes pairs) ((servedBy pairs .rtmp_srt [.RTMP, .RTMP, .RTMP]).take 2) := by
  have hlen : ((servedBy pairs .rtmp_srt [.RTMP, .RTMP, .RTMP]).take 2).length = 2 := by decide +kernel
  refine (round_robin_iff pairs (by decide) (by decide) [.RTMP, .RTMP, .RTMP] (by decide)).2 (fun c v hv hn => ?_)
    .rtmp_srt _ (List.take_prefix 2 _).isInfix hlen
  rw [← hn]
  exact places_of_one (c := .rtmp_srt) (by decide) hv

/-- A call for the other cluster in between: both publishers over RTMP get the first node. -/
theorem round_robin_skips : ¬ ∀ c w, w <:+: servedBy pairs c [.RTMP, .HLS, .RTMP] →
    w.length = (c.nodes pairs).length → EachOnce (c.nodes pairs) w := by
  intro h
  have hserved : (servedBy pairs .rtmp_srt [.RTMP, .HLS, .RTMP]).map Call.entry = [0, 0] := by decide +kernel
  have hlen : (servedBy pairs .rtmp_srt [.RTMP, .HLS, .RTMP]).length = 2 := by decide +kernel
  have hperm := (h .rtmp_srt _ List.infix_rfl hlen).entries
  rw [hserved] at hperm
  exact absurd (hperm.nodup_iff.2 List.nodup_range) (by decide)

end StreamGate.Node

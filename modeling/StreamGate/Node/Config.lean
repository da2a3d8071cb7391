import StreamGate.Scheduler.TaskScheduler

/-!
# The node configuration

`NodeConfig` with its third list, its categories, and the selection by category.  The scheduler selects by protocol
with a counter of its own (`Scheduler.selectBestNode`).
-/

namespace StreamGate.Node

open StreamGate.Scheduler

/-- `NodeConfig`: the two lists that the scheduler reads, and the list for WebRTC. -/
structure NodeConfig extends Scheduler.NodeConfig where
  webrtc : List NodeEndpoint := []

/-- `NodeConfig::Category`. -/
inductive Category where
  | RTMP_SRT | HTTP_HLS | WEBRTC | UNKNOWN
  deriving DecidableEq, Repr

namespace NodeConfig

def getEndpointsByCat (config : NodeConfig) : Category → List NodeEndpoint
  | .RTMP_SRT => config.rtmp_srt
  | .HTTP_HLS => config.http_hls
  | .WEBRTC => config.webrtc
  | .UNKNOWN => []

/-- The names are known in any letter case. -/
def stringToCategory (category : String) : Category :=
  let norm := category.map Char.toLower
  if norm = "rtmp" ∨ norm = "srt" ∨ norm = "rtmp_srt" then .RTMP_SRT
  else if norm = "http" ∨ norm = "hls" ∨ norm = "http_hls" then .HTTP_HLS
  else if norm = "webrtc" then .WEBRTC
  else .UNKNOWN

end NodeConfig

/-! ### Clusters -/

/-- The cluster that `selectBestNode` takes for a protocol. -/
inductive Cluster where
  | rtmp_srt | http_hls
  deriving DecidableEq, Repr

def cluster (protocol : Task.StreamProtocol) : Cluster :=
  if protocol = .RTMP ∨ protocol = .SRT then .rtmp_srt else .http_hls

def Cluster.nodes (config : Scheduler.NodeConfig) : Cluster → List NodeEndpoint
  | rtmp_srt => config.rtmp_srt
  | http_hls => config.http_hls

/-- The node is the one at the remainder of the counter. -/
theorem selectBestNode_eq (config : Scheduler.NodeConfig) (nodeIndex : UInt64) {protocol : Task.StreamProtocol}
    (hne : (cluster protocol).nodes config ≠ []) :
    ∃ node, ((cluster protocol).nodes config)[nodeIndex.toNat % ((cluster protocol).nodes config).length]? = some node ∧
      selectBestNode config nodeIndex protocol = (node.host, node.port) := by
  have hnodes : (cluster protocol).nodes config =
      if protocol = .RTMP ∨ protocol = .SRT then config.rtmp_srt else config.http_hls := by
    unfold cluster
    split
    · rfl
    · rfl
  have hlt := Nat.mod_lt nodeIndex.toNat (List.length_pos_iff.2 hne)
  refine ⟨_, List.getElem?_eq_getElem hlt, ?_⟩
  unfold selectBestNode
  dsimp only
  rw [← hnodes, List.getElem?_eq_getElem hlt]

end StreamGate.Node

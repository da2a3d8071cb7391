import StreamGate.Hook.Request
import StreamGate.Node.Config

/-!
# Two ways to a list of nodes

The schema of a hook is read by `ZlmHookRequest::parse_protocol`, and `selectBestNode` takes the cluster of that
protocol.  `NodeConfig::stringToCategory` reads the same names, and `getEndpointsByCat` takes the list of the category.
The two agree on HTTP and HLS, and on `rtmp` in lower case (`routes_agree_iff`).
-/

namespace StreamGate.Node

open StreamGate.Lib StreamGate.Task StreamGate.Scheduler StreamGate.Hook

section Schema

variable {parse : String → Except ParseFault Json} {j : Json} {hook : ZlmHookRequest} {x : String}

/-- The schema is what the protocol is read from, if there is one. -/
theorem protocol_of_schema (hook_eq : ZlmHookRequest.from_json parse j = some hook)
    (hx : j.find "schema" = some (.string x)) : hook.protocol = ZlmHookRequest.parse_protocol x := by
  have hvalue : ∀ protocol, j.value Json.getString "schema" protocol = some x := by
    intro protocol
    cases j with
    | object members =>
      rw [Json.value_object, hx]
      rfl
    | _ => cases hx
  unfold ZlmHookRequest.from_json at hook_eq
  cases haction : j.find "action" with
  | none =>
    simp only [haction, hvalue, Option.bind_eq_bind, Option.bind_some, Option.bind_eq_some_iff, Option.pure_def,
      Option.some.injEq] at hook_eq
    obtain ⟨_, -, _, -, _, -, _, -, _, -, _, -, _, -, rfl⟩ := hook_eq
    rfl
  | some action =>
    simp only [haction, hvalue, Option.bind_eq_bind, Option.bind_some, Option.bind_eq_some_iff, Option.pure_def,
      Option.some.injEq] at hook_eq
    obtain ⟨_, -, _, -, _, -, _, -, _, -, _, -, _, -, _, -, rfl⟩ := hook_eq
    rfl

/-- Only `rtmp` in lower case leads to the first cluster: no name leads to `SRT`. -/
theorem cluster_parse_protocol (x : String) :
    cluster (ZlmHookRequest.parse_protocol x) = if x = "rtmp" then .rtmp_srt else .http_hls := by
  unfold ZlmHookRequest.parse_protocol
  by_cases hx : x = "rtmp"
  · rw [if_pos hx, if_pos hx]
    rfl
  · rw [if_neg hx, if_neg hx]
    repeat' split
    all_goals rfl

theorem stringToCategory_rtmp : NodeConfig.stringToCategory "rtmp" = .RTMP_SRT := by decide +kernel

end Schema

/-- The node of a call is in the list of its cluster. -/
theorem selectBestNode_mem (config : Scheduler.NodeConfig) (nodeIndex : UInt64) {protocol : StreamProtocol}
    (hne : (cluster protocol).nodes config ≠ []) :
    ∃ e ∈ (cluster protocol).nodes config, selectBestNode config nodeIndex protocol = (e.host, e.port) := by
  obtain ⟨node, hnode, hselect⟩ := selectBestNode_eq config nodeIndex hne
  exact ⟨node, List.mem_of_getElem? hnode, hselect⟩

/-- It is in no list that has no endpoint in common with that one. -/
theorem selectBestNode_not_mem {config : Scheduler.NodeConfig} {nodeIndex : UInt64} {protocol : StreamProtocol}
    (hne : (cluster protocol).nodes config ≠ []) {nodes : List NodeEndpoint}
    (hdisj : nodes.Disjoint ((cluster protocol).nodes config)) :
    ¬ ∃ e ∈ nodes, selectBestNode config nodeIndex protocol = (e.host, e.port) := by
  rintro ⟨e, he, heq⟩
  obtain ⟨node, hnode, hselect⟩ := selectBestNode_mem config nodeIndex hne
  obtain ⟨hhost, hport⟩ := Prod.mk.inj (heq.symm.trans hselect)
  have hsame : e = node := NodeEndpoint.mk.injEq .. ▸ ⟨hhost, hport⟩
  exact hdisj he (hsame ▸ hnode)

/-- **When the two agree.** -/
theorem routes_agree_iff (config : NodeConfig) (hrtmp : config.rtmp_srt ≠ []) (hhttp : config.http_hls ≠ [])
    (hrh : config.rtmp_srt.Disjoint config.http_hls) (hwh : config.webrtc.Disjoint config.http_hls)
    {parse : String → Except ParseFault Json} {j : Json} {hook : ZlmHookRequest} {x : String}
    (hook_eq : ZlmHookRequest.from_json parse j = some hook) (hx : j.find "schema" = some (.string x))
    (hknown : NodeConfig.stringToCategory x ≠ .UNKNOWN) (nodeIndex : UInt64) :
    (∃ e ∈ config.getEndpointsByCat (NodeConfig.stringToCategory x),
        selectBestNode config.toNodeConfig nodeIndex hook.protocol = (e.host, e.port)) ↔
      NodeConfig.stringToCategory x = .HTTP_HLS ∨ x = "rtmp" := by
  rw [protocol_of_schema hook_eq hx]
  have hcluster := cluster_parse_protocol x
  by_cases hrtmp_x : x = "rtmp"
  · rw [if_pos hrtmp_x] at hcluster
    rw [hrtmp_x, stringToCategory_rtmp, ← hrtmp_x]
    have hne : (cluster (ZlmHookRequest.parse_protocol x)).nodes config.toNodeConfig ≠ [] := by
      rw [hcluster]
      exact hrtmp
    have hmem := selectBestNode_mem config.toNodeConfig nodeIndex hne
    rw [hcluster] at hmem
    exact iff_of_true hmem (.inr rfl)
  · rw [if_neg hrtmp_x] at hcluster
    have hne : (cluster (ZlmHookRequest.parse_protocol x)).nodes config.toNodeConfig ≠ [] := by
      rw [hcluster]
      exact hhttp
    cases hcat : NodeConfig.stringToCategory x with
    | UNKNOWN => exact absurd hcat hknown
    | HTTP_HLS =>
      have hmem := selectBestNode_mem config.toNodeConfig nodeIndex hne
      rw [hcluster] at hmem
      exact iff_of_true hmem (.inl rfl)
    | RTMP_SRT =>
      refine iff_of_false (selectBestNode_not_mem hne ?_) (by simp [hrtmp_x])
      rw [hcluster]
      exact hrh
    | WEBRTC =>
      refine iff_of_false (selectBestNode_not_mem hne ?_) (by simp [hrtmp_x])
      rw [hcluster]
      exact hwh

/-- One node for each category. -/
def three : NodeConfig where
  rtmp_srt := [⟨"127.0.0.1", 1935⟩]
  http_hls := [⟨"127.0.0.1", 8080⟩]
  webrtc := [⟨"127.0.0.1", 8443⟩]

theorem three_disjoint : three.rtmp_srt.Disjoint three.http_hls ∧ three.rtmp_srt.Disjoint three.webrtc ∧
    three.http_hls.Disjoint three.webrtc := by
  simp [three]

/-- A publish hook with a schema. -/
def publishHook (x : String) : Json :=
  .object [("action", .string "on_publish"), ("schema", .string x), ("stream", .string "live"), ("id", .string "obs")]

theorem routes_agree_hls :
    ∃ hook, ZlmHookRequest.from_json (fun _ => .error .parse_error) (publishHook "HLS") = some hook ∧
    ∃ e ∈ three.getEndpointsByCat (NodeConfig.stringToCategory "HLS"),
      selectBestNode three.toNodeConfig 0 hook.protocol = (e.host, e.port) := by
  have hcat : NodeConfig.stringToCategory "HLS" = .HTTP_HLS := by decide +kernel
  have hknown : NodeConfig.stringToCategory "HLS" ≠ .UNKNOWN := by
    rw [hcat]
    decide
  have hx : (publishHook "HLS").find "schema" = some (.string "HLS") := rfl
  let hook := (ZlmHookRequest.from_json (fun _ => .error .parse_error) (publishHook "HLS")).get rfl
  have hook_eq : ZlmHookRequest.from_json (fun _ => .error .parse_error) (publishHook "HLS") = some hook := rfl
  exact ⟨hook, hook_eq, (routes_agree_iff three (by decide) (by decide) three_disjoint.1 three_disjoint.2.2.symm hook_eq
    hx hknown 0).2 (.inl hcat)⟩

/-- A hook for SRT is sent to the nodes for HTTP. -/
theorem routes_differ_srt :
    ∃ hook, ZlmHookRequest.from_json (fun _ => .error .parse_error) (publishHook "srt") = some hook ∧
    NodeConfig.stringToCategory "srt" = .RTMP_SRT ∧ three.rtmp_srt.Disjoint three.http_hls ∧
    three.rtmp_srt.Disjoint three.webrtc ∧ three.http_hls.Disjoint three.webrtc ∧
    selectBestNode three.toNodeConfig 0 hook.protocol = ("127.0.0.1", 8080) ∧
    ¬ ∃ e ∈ three.getEndpointsByCat (NodeConfig.stringToCategory "srt"),
      selectBestNode three.toNodeConfig 0 hook.protocol = (e.host, e.port) := by
  have hcat : NodeConfig.stringToCategory "srt" = .RTMP_SRT := by decide +kernel
  refine ⟨_, rfl, hcat, three_disjoint.1, three_disjoint.2.1, three_disjoint.2.2, by decide +kernel, ?_⟩
  rw [hcat]
  decide +kernel

end StreamGate.Node

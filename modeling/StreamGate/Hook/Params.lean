import StreamGate.Hook.Request
import StreamGate.Lib.Assign

/-!
# URL parameters

The grammar of URL parameters is pieces between ampersands, each with a key and a value.  The loop of
`parse_url_params` looks for the next `=` first, so a piece without one becomes part of the key of the next
(`parsed_iff`).
-/

namespace StreamGate.Hook

open StreamGate.Lib

/-- The pieces of a query. -/
def pieces (text : List Char) : List (List Char) := text.splitOn '&'

/-- A piece, split at its first `=`. -/
def assignment (piece : List Char) : Option (String × String) :=
  if '=' ∈ piece then
    some (String.ofList (piece.takeWhile (· ≠ '=')), String.ofList (piece.dropWhile (· ≠ '=')).tail)
  else none

def assignments (text : List Char) : List (String × String) := (pieces text).filterMap assignment

/-- No piece with a value stands after one without. -/
def Ordered (text : List Char) : Prop := (pieces text).Pairwise fun a b => '=' ∈ b → '=' ∈ a

/-- The query is read as the grammar says. -/
structure Parsed (q : String) : Prop where
  params : ZlmHookRequest.parse_url_params q (fun _ => none) = assign (assignments q.toList) fun _ => none
  token : ∀ req : ZlmHookRequest, req.params = ZlmHookRequest.parse_url_params q (fun _ => none) →
    req.get_token = (lastAssigned (assignments q.toList) "token").getD ""

/-! ### Pieces -/

section Pieces

variable {text key value rest : List Char}

theorem assignments_of_not_mem (h : '=' ∉ text) : assignments text = [] := by
  refine List.filterMap_eq_nil_iff.2 fun piece hpiece => ?_
  have hnot : '=' ∉ piece := fun hmem => h (exists_mem_splitOn.1 ⟨piece, hpiece, hmem⟩).1
  exact if_neg hnot

theorem ordered_of_not_mem (h : '=' ∉ text) : Ordered text := by
  refine List.pairwise_iff_forall_sublist.2 fun {a b} hab hb => ?_
  exact absurd (exists_mem_splitOn.1 ⟨b, hab.subset (by simp), hb⟩).1 h

/-- The first piece, up to the ampersand. -/
theorem pieces_cons (hkey : '&' ∉ key) (hvalue : '&' ∉ value) :
    pieces (key ++ '=' :: (value ++ '&' :: rest)) = (key ++ '=' :: value) :: pieces rest := by
  have hfirst : '&' ∉ key ++ '=' :: value := by simp [hkey, hvalue]
  have happend : key ++ '=' :: (value ++ '&' :: rest) = (key ++ '=' :: value) ++ '&' :: rest := by simp
  rw [happend, pieces, splitOn_append_cons, splitOn_of_not_mem hfirst]
  rfl

theorem assignment_mk (hkey : '=' ∉ key) :
    assignment (key ++ '=' :: value) = some (String.ofList key, String.ofList value) := by
  obtain ⟨htake, hdrop⟩ := takeWhile_ne_append hkey value
  unfold assignment
  rw [if_pos (by simp), htake, hdrop]
  rfl

/-- A key with an ampersand is the end of a piece and the start of another. -/
theorem not_ordered (hkey : '=' ∉ key) (hamp : '&' ∈ key) : ¬ Ordered (key ++ '=' :: rest) := by
  obtain ⟨a, b, rfl⟩ := List.append_of_mem hamp
  intro h
  have hsplit : pieces (a ++ '&' :: b ++ '=' :: rest) = pieces a ++ pieces (b ++ '=' :: rest) := by
    rw [List.append_assoc, List.cons_append]
    exact splitOn_append_cons a _
  rw [Ordered, hsplit] at h
  obtain ⟨piece, hpiece, hmem⟩ := exists_mem_splitOn.2 (⟨by simp, by decide⟩ : '=' ∈ b ++ '=' :: rest ∧ '=' ≠ '&')
  obtain ⟨first, hfirst⟩ := List.exists_mem_of_ne_nil (pieces a) splitOn_ne_nil
  have hnone : '=' ∈ first := (List.pairwise_append.1 h).2.2 first hfirst piece hpiece hmem
  exact hkey (by simp [(exists_mem_splitOn.1 ⟨first, hfirst, hnone⟩).1])

/-- The last piece. -/
theorem pieces_last (hkey : '&' ∉ key) (hvalue : '&' ∉ value) : pieces (key ++ '=' :: value) = [key ++ '=' :: value] :=
  splitOn_of_not_mem (by simp [hkey, hvalue])

theorem ordered_more (hkey : '&' ∉ key) (hvalue : '&' ∉ value) :
    Ordered (key ++ '=' :: (value ++ '&' :: rest)) ↔ Ordered rest := by
  rw [Ordered, pieces_cons hkey hvalue, List.pairwise_cons]
  exact and_iff_right fun b _ _ => by simp

end Pieces

/-! ### The loop -/

namespace ZlmHookRequest

/-- A text as the loop goes through it: it ends where there is no further `=` or no further `&`. -/
inductive Cut : List Char → Prop
  | none {text : List Char} (h : '=' ∉ text) : Cut text
  | last {key value : List Char} (hkey : '=' ∉ key) (hvalue : '&' ∉ value) : Cut (key ++ '=' :: value)
  | more {key value rest : List Char} (hkey : '=' ∉ key) (hvalue : '&' ∉ value) (h : Cut rest) :
    Cut (key ++ '=' :: (value ++ '&' :: rest))

theorem cut (text : List Char) : Cut text := by
  induction hn : text.length using Nat.strongRecOn generalizing text with
  | ind n ih =>
    by_cases heq : '=' ∈ text
    · obtain ⟨key, rest, rfl, hkey⟩ := List.eq_append_cons_of_mem heq
      by_cases hamp : '&' ∈ rest
      · obtain ⟨value, rest, rfl, hvalue⟩ := List.eq_append_cons_of_mem hamp
        refine .more hkey hvalue (ih rest.length ?_ rest rfl)
        rw [← hn]
        simp only [List.length_append, List.length_cons]
        omega
      · exact .last hkey hamp
    · exact .none heq

variable {text key value rest : List Char} {out : String → Option String}

theorem urlParams_of_not_mem (h : '=' ∉ text) : urlParams text out = out := by
  rw [urlParams]
  split
  · rfl
  · rename_i heq
    rw [(takeWhile_ne_of_not_mem h).2] at heq
    cases heq

theorem urlParams_cons (hkey : '=' ∉ key) : urlParams (key ++ '=' :: rest) out =
    urlParams (rest.dropWhile (· ≠ '&')).tail
      (Function.update out (String.ofList key) (some (String.ofList (rest.takeWhile (· ≠ '&'))))) := by
  obtain ⟨htake, hdrop⟩ := takeWhile_ne_append hkey rest
  rw [urlParams]
  split
  · rename_i heq
    rw [hdrop] at heq
    cases heq
  · rename_i c rest' heq
    rw [hdrop] at heq
    obtain ⟨-, rfl⟩ := List.cons.inj heq
    rw [htake]

theorem urlParams_last (hkey : '=' ∉ key) (hvalue : '&' ∉ value) : urlParams (key ++ '=' :: value) out =
    Function.update out (String.ofList key) (some (String.ofList value)) := by
  obtain ⟨htake, hdrop⟩ := takeWhile_ne_of_not_mem hvalue
  rw [urlParams_cons hkey, htake, hdrop]
  exact urlParams_of_not_mem List.not_mem_nil

theorem urlParams_more (hkey : '=' ∉ key) (hvalue : '&' ∉ value) :
    urlParams (key ++ '=' :: (value ++ '&' :: rest)) out =
      urlParams rest (Function.update out (String.ofList key) (some (String.ofList value))) := by
  obtain ⟨htake, hdrop⟩ := takeWhile_ne_append hvalue rest
  rw [urlParams_cons hkey, htake, hdrop]
  rfl

/-- What has been assigned stays assigned. -/
theorem urlParams_ne_none (text : List Char) {k : String} (hk : out k ≠ none) : urlParams text out k ≠ none := by
  have hupdate : ∀ (key value : String) {out : String → Option String}, out k ≠ none →
      Function.update out key (some value) k ≠ none := by
    intro key value out hk
    rw [Function.update_apply]
    split
    · exact Option.some_ne_none _
    · exact hk
  induction cut text generalizing out with
  | none h =>
    rw [urlParams_of_not_mem h]
    exact hk
  | last hkey hvalue =>
    rw [urlParams_last hkey hvalue]
    exact hupdate _ _ hk
  | more hkey hvalue h ih =>
    rw [urlParams_more hkey hvalue]
    exact ih (hupdate _ _ hk)

/-- **A query in order is read piece by piece.** -/
theorem urlParams_of_ordered (h : Ordered text) : urlParams text out = assign (assignments text) out := by
  induction cut text generalizing out with
  | none hnot =>
    rw [urlParams_of_not_mem hnot, assignments_of_not_mem hnot]
    rfl
  | @last key value hkey hvalue =>
    have hamp : '&' ∉ key := fun hmem => not_ordered hkey hmem h
    rw [urlParams_last hkey hvalue, assignments, pieces_last hamp hvalue, List.filterMap_cons, assignment_mk hkey]
    rfl
  | @more key value rest hkey hvalue hrest ih =>
    have hamp : '&' ∉ key := fun hmem => not_ordered hkey hmem h
    rw [urlParams_more hkey hvalue, ih ((ordered_more hamp hvalue).1 h), assignments, assignments,
      pieces_cons hamp hvalue, List.filterMap_cons, assignment_mk hkey]
    rfl

/-- Any other gets a key with an ampersand. -/
theorem urlParams_of_not_ordered (h : ¬ Ordered text) (out : String → Option String) :
    ∃ k : String, '&' ∈ k.toList ∧ urlParams text out k ≠ none := by
  have hassigned : ∀ (key : List Char) (value : String) (out : String → Option String),
      Function.update out (String.ofList key) (some value) (String.ofList key) ≠ none := by
    intro key value out
    rw [Function.update_self]
    exact Option.some_ne_none _
  induction cut text generalizing out with
  | none hnot => exact absurd (ordered_of_not_mem hnot) h
  | @last key value hkey hvalue =>
    by_cases hamp : '&' ∈ key
    · refine ⟨String.ofList key, by simpa using hamp, ?_⟩
      rw [urlParams_last hkey hvalue]
      exact hassigned _ _ _
    · refine absurd ?_ h
      rw [Ordered, pieces_last hamp hvalue]
      exact List.pairwise_singleton _ _
  | @more key value rest hkey hvalue hrest ih =>
    by_cases hamp : '&' ∈ key
    · refine ⟨String.ofList key, by simpa using hamp, ?_⟩
      rw [urlParams_more hkey hvalue]
      exact urlParams_ne_none rest (hassigned _ _ _)
    · obtain ⟨k, hk, hne⟩ := ih (fun hrest => h ((ordered_more hamp hvalue).2 hrest))
        (Function.update out (String.ofList key) (some (String.ofList value)))
      exact ⟨k, hk, by rw [urlParams_more hkey hvalue]; exact hne⟩

end ZlmHookRequest

/-- The keys of the grammar have none. -/
theorem lastAssigned_of_mem {text : List Char} {k : String} (hk : '&' ∈ k.toList) :
    lastAssigned (assignments text) k = none := by
  refine lastAssigned_eq_none fun a ha => ?_
  rintro rfl
  obtain ⟨piece, hpiece, hassign⟩ := List.mem_filterMap.1 ha
  unfold assignment at hassign
  split at hassign
  · obtain rfl := Option.some.inj hassign
    rw [String.toList_ofList] at hk
    have hmem : '&' ∈ piece := (List.takeWhile_sublist _).subset hk
    exact (exists_mem_splitOn.1 ⟨piece, hpiece, hmem⟩).2 rfl
  · cases hassign

/-- **When the parameters are those of the grammar.** -/
theorem parsed_iff (q : String) : Parsed q ↔ Ordered q.toList := by
  constructor
  · intro h
    by_contra hnot
    obtain ⟨k, hk, hne⟩ := ZlmHookRequest.urlParams_of_not_ordered hnot fun _ => none
    apply hne
    have hparams : ZlmHookRequest.urlParams q.toList (fun _ => none) k = _ := congrFun h.params k
    rw [hparams, assign_apply, lastAssigned_of_mem hk]
    rfl
  · intro h
    have hparams : ZlmHookRequest.parse_url_params q (fun _ => none) = assign (assignments q.toList) fun _ => none :=
      ZlmHookRequest.urlParams_of_ordered h
    refine ⟨hparams, fun req hreq => ?_⟩
    rw [ZlmHookRequest.get_token, hreq, hparams, assign_apply, Option.or_none]

/-- A piece without a value hides the token that follows it. -/
theorem token_hidden : ZlmHookRequest.parse_url_params "sign&token=secret" (fun _ => none) "token" = none ∧
    ¬ Parsed "sign&token=secret" := by
  have hsplit : "sign&token=secret".toList = "sign&token".toList ++ '=' :: "secret".toList := by decide +kernel
  have hparams : ZlmHookRequest.parse_url_params "sign&token=secret" (fun _ => none) =
      Function.update (fun _ => none) "sign&token" (some "secret") := by
    rw [ZlmHookRequest.parse_url_params, hsplit, ZlmHookRequest.urlParams_last (by decide +kernel) (by decide +kernel),
      String.ofList_toList, String.ofList_toList]
  refine ⟨?_, fun h => ?_⟩
  · rw [hparams]
    exact Function.update_of_ne (by decide) _ _
  · have hkey := congrFun h.params "sign&token"
    rw [hparams, Function.update_self, assign_apply, lastAssigned_of_mem (by decide +kernel)] at hkey
    cases hkey

end StreamGate.Hook

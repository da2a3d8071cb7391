import StreamGate.Config.Loader

/-!
# Blanks around the separator

A line is trimmed before it is split and its key afterwards, its value never: blanks between the separator and the
value become part of the value (`spacing_iff`).
-/

namespace StreamGate.Config

open StreamGate.Lib

namespace ConfigLoader

variable {k v w w₁ w₂ w₃ w₄ : List Char}

/-- Spaces and tabs. -/
def Blanks (w : List Char) : Prop := ∀ c ∈ w, c = ' ' ∨ c = '\t'

instance (w : List Char) : Decidable (Blanks w) := List.decidableBAll (fun c => c = ' ' ∨ c = '\t') w

/-- A text without blanks at its ends. -/
structure Trimmed (str : List Char) : Prop where
  head : ∀ c ∈ str.head?, isBlank c = false
  last : ∀ c ∈ str.getLast?, isBlank c = false

instance (str : List Char) : Decidable (Trimmed str) :=
  haveI := Option.decidableForallMem (p := fun c => isBlank c = false) str.head?
  haveI := Option.decidableForallMem (p := fun c => isBlank c = false) str.getLast?
  decidable_of_iff ((∀ c ∈ str.head?, isBlank c = false) ∧ ∀ c ∈ str.getLast?, isBlank c = false)
    ⟨fun h => ⟨h.1, h.2⟩, fun h => ⟨h.head, h.last⟩⟩

/-- A key that a line can set. -/
structure Key (k : List Char) : Prop extends Trimmed k where
  ne_nil : k ≠ []
  not_sep : '=' ∉ k
  not_comment : k.head? ≠ some '#' ∧ k.head? ≠ some ';'

instance (k : List Char) : Decidable (Key k) :=
  decidable_of_iff (Trimmed k ∧ k ≠ [] ∧ '=' ∉ k ∧ k.head? ≠ some '#' ∧ k.head? ≠ some ';')
    ⟨fun ⟨h, hne, hsep, hcomment⟩ => { h with ne_nil := hne, not_sep := hsep, not_comment := hcomment },
      fun h => ⟨h.toTrimmed, h.ne_nil, h.not_sep, h.not_comment⟩⟩

/-- A line that sets `k` to `v`, with blanks around both. -/
def spaced (w₁ k w₂ w₃ v w₄ : List Char) : List Char := w₁ ++ k ++ w₂ ++ '=' :: (w₃ ++ v ++ w₄)

theorem Blanks.isBlank (h : Blanks w) : ∀ c ∈ w, ConfigLoader.isBlank c = true := by
  intro c hc
  rcases h c hc with rfl | rfl <;> decide

theorem Blanks.not_sep (h : Blanks w) : '=' ∉ w := by
  intro hmem
  rcases h '=' hmem with h | h <;> cases h

theorem Key.trim_append (hk : Key k) (h₂ : Blanks w₂) : trim (k ++ w₂) = k := by
  have hhead : ∀ c ∈ (k ++ w₂).head?, isBlank c = false := by
    rw [List.head?_append_of_ne_nil k hk.ne_nil]
    exact hk.head
  have hdrop : (k ++ w₂).dropWhile isBlank = k ++ w₂ := dropWhile_append_of_blank (w := []) (by simp) hhead
  rw [trim, hdrop]
  exact rdropWhile_append_of_blank h₂.isBlank hk.last

/-- Trimming leaves the blanks before the value, where there is one. -/
theorem rdropWhile_value (hv : Trimmed v) (h₃ : Blanks w₃) (h₄ : Blanks w₄) :
    (w₃ ++ v ++ w₄).rdropWhile isBlank = if v = [] then [] else w₃ ++ v := by
  split
  · subst v
    rw [List.append_nil, List.rdropWhile_eq_nil_iff]
    intro c hc
    exact (List.mem_append.1 hc).elim (h₃.isBlank c) (h₄.isBlank c)
  · refine rdropWhile_append_of_blank h₄.isBlank ?_
    rw [List.getLast?_append_of_ne_nil _ ‹_›]
    exact hv.last

theorem trim_spaced (hk : Key k) (hv : Trimmed v) (h₁ : Blanks w₁) (h₃ : Blanks w₃) (h₄ : Blanks w₄) :
    trim (spaced w₁ k w₂ w₃ v w₄) = (k ++ w₂) ++ '=' :: if v = [] then [] else w₃ ++ v := by
  have hhead : ∀ c ∈ (k ++ (w₂ ++ '=' :: (w₃ ++ v ++ w₄))).head?, isBlank c = false := by
    rw [List.head?_append_of_ne_nil k hk.ne_nil]
    exact hk.head
  rw [trim, spaced, List.append_assoc, List.append_assoc, dropWhile_append_of_blank h₁.isBlank hhead,
    ← List.append_assoc, rdropWhile_append_cons (by decide), rdropWhile_value hv h₃ h₄]

/-- The entry that such a line sets. -/
theorem entry_spaced (hk : Key k) (hv : Trimmed v) (h₁ : Blanks w₁) (h₂ : Blanks w₂) (h₃ : Blanks w₃)
    (h₄ : Blanks w₄) : entry (spaced w₁ k w₂ w₃ v w₄) =
      some (String.ofList k, String.ofList (unquote (if v = [] then [] else w₃ ++ v))) := by
  have hhead : ∀ l, ((k ++ w₂) ++ '=' :: l).head? = k.head? := by
    intro l
    rw [List.append_assoc, List.head?_append_of_ne_nil k hk.ne_nil]
  obtain ⟨htake, hdrop⟩ := takeWhile_ne_append (a := '=') (l := k ++ w₂)
    (by simp [hk.not_sep, h₂.not_sep]) (if v = [] then [] else w₃ ++ v)
  unfold entry
  dsimp only
  rw [trim_spaced hk hv h₁ h₃ h₄, hhead, htake, hdrop, hk.trim_append h₂]
  rw [if_neg (by simp [hk.not_comment.1, hk.not_comment.2]), if_pos (by simp), if_pos hk.ne_nil]
  rfl

/-- Quotes go, nothing is added. -/
theorem length_unquote_le (str : List Char) : (unquote str).length ≤ str.length := by
  unfold unquote
  split
  · rw [List.length_dropLast, List.length_tail]
    omega
  · exact Nat.le_refl _

/-- A text that starts with a blank has no quotes. -/
theorem unquote_blank_cons {c : Char} (hc : c = ' ' ∨ c = '\t') (str : List Char) :
    unquote (c :: str) = c :: str := by
  refine if_neg ?_
  rcases hc with rfl | rfl <;> simp

/-- Blanks before a value are kept. -/
theorem unquote_append_eq_iff (h₃ : Blanks w₃) : unquote (w₃ ++ v) = unquote v ↔ w₃ = [] := by
  constructor
  · intro h
    cases w₃ with
    | nil => rfl
    | cons c w₃ =>
      rw [List.cons_append, unquote_blank_cons (h₃ c (by simp))] at h
      have hlength := congrArg List.length h
      have hle := length_unquote_le v
      simp only [List.length_cons, List.length_append] at hlength
      omega
  · rintro rfl
    rfl

variable {sys : System} {filename text : String} {targetMap : ConfigMap} {optional : Bool}
  {pre post : List (List Char)}

/-- A line that is the last to set a key gives its value. -/
theorem parse_line {line key val : List Char} (hfile : sys.files filename = some text)
    (hlines : getlines text.toList = pre ++ line :: post)
    (hline : entry line = some (String.ofList key, String.ofList val))
    (hpost : ∀ line ∈ post, ∀ e ∈ entry line, e.1 ≠ String.ofList key) :
    (parseFileToMap sys filename targetMap optional).map (· (String.ofList key)) =
      .ok (some (String.ofList val)) := by
  have hnone : lastAssigned (post.filterMap entry) (String.ofList key) = none := by
    refine lastAssigned_eq_none fun e he => ?_
    obtain ⟨line, hline, he⟩ := List.mem_filterMap.1 he
    exact hpost line hline e he
  unfold parseFileToMap
  rw [hfile]
  dsimp only [Except.map]
  rw [foldl_readLine, assign_apply, hlines, List.filterMap_append, List.filterMap_cons, hline, lastAssigned_append,
    lastAssigned_cons, hnone]
  simp

/-- **When blanks do not count.**  For a line that sets `k` to `v` with blanks around both, in a file where no other
line sets `k`: the value is that of the line without blanks if there are none before the value, or there is no value. -/
theorem spacing_iff {text' filename' : String} (hk : Key k) (hv : Trimmed v) (h₁ : Blanks w₁) (h₂ : Blanks w₂)
    (h₃ : Blanks w₃) (h₄ : Blanks w₄) (hfile : sys.files filename = some text)
    (hlines : getlines text.toList = pre ++ spaced w₁ k w₂ w₃ v w₄ :: post)
    (hfile' : sys.files filename' = some text') (hlines' : getlines text'.toList = pre ++ (k ++ '=' :: v) :: post)
    (hother : ∀ line ∈ pre ++ post, ∀ e ∈ entry line, e.1 ≠ String.ofList k) :
    ((parseFileToMap sys filename targetMap optional).map (· (String.ofList k)) =
        .ok (some (String.ofList (unquote v))) ∧
      (parseFileToMap sys filename targetMap optional).map (· (String.ofList k)) =
        (parseFileToMap sys filename' targetMap optional).map (· (String.ofList k))) ↔
    w₃ = [] ∨ v = [] := by
  have hpost : ∀ line ∈ post, ∀ e ∈ entry line, e.1 ≠ String.ofList k :=
    fun line hline => hother line (List.mem_append_right _ hline)
  have hplain : entry (k ++ '=' :: v) = some (String.ofList k, String.ofList (unquote v)) := by
    have hnil : Blanks [] := by simp [Blanks]
    have h := entry_spaced hk hv hnil hnil hnil hnil
    have hif : (if v = [] then [] else [] ++ v) = v := by
      split
      · exact (‹v = []›).symm
      · rfl
    rw [hif] at h
    simpa [spaced] using h
  rw [parse_line hfile hlines (entry_spaced hk hv h₁ h₂ h₃ h₄) hpost, parse_line hfile' hlines' hplain hpost]
  split
  · rename_i hnil
    subst hnil
    simp
  · rename_i hne
    have hinj : ∀ a b : List Char, (Except.ok (some (String.ofList a)) : Except String (Option String)) =
        .ok (some (String.ofList b)) ↔ a = b := by
      intro a b
      simp [String.ofList_inj]
    rw [hinj, and_self_iff, unquote_append_eq_iff h₃, or_iff_left hne]

/-- Lines of the sample configuration as the documentation has them, with blanks elsewhere, and without blanks. -/
def sampleConfig : System where
  files name :=
    if name = "config.ini" then some "# Redis\nREDIS_HOST = 127.0.0.1\nREDIS_PORT = 6380\n"
    else if name = "indented.ini" then some "# Redis\n  REDIS_HOST =127.0.0.1\t\nREDIS_PORT = 6380\n"
    else if name = "plain.ini" then some "# Redis\nREDIS_HOST=127.0.0.1\nREDIS_PORT = 6380\n"
    else none
  getenv _ := none

theorem spacing_indented :
    ((parseFileToMap sampleConfig "indented.ini" (fun _ => none) false).map
        (· (String.ofList "REDIS_HOST".toList)) = .ok (some (String.ofList (unquote "127.0.0.1".toList))) ∧
      (parseFileToMap sampleConfig "indented.ini" (fun _ => none) false).map
          (· (String.ofList "REDIS_HOST".toList)) =
        (parseFileToMap sampleConfig "plain.ini" (fun _ => none) false).map
          (· (String.ofList "REDIS_HOST".toList))) ↔
    [] = ([] : List Char) ∨ "127.0.0.1".toList = [] :=
  have hlines : getlines "# Redis\n  REDIS_HOST =127.0.0.1\t\nREDIS_PORT = 6380\n".toList =
      ["# Redis".toList] ++ spaced [' ', ' '] "REDIS_HOST".toList [' '] [] "127.0.0.1".toList ['\t'] ::
        ["REDIS_PORT = 6380".toList] := by decide +kernel
  spacing_iff (by decide +kernel) (by decide +kernel) (by decide) (by decide) (by decide) (by decide)
    (by decide +kernel) hlines
    (show sampleConfig.files "plain.ini" = some "# Redis\nREDIS_HOST=127.0.0.1\nREDIS_PORT = 6380\n" by decide +kernel)
    (by decide +kernel) (by decide +kernel)

/-- The address of the sample configuration starts with a blank. -/
theorem spacing_sample : Key "REDIS_HOST".toList ∧ Trimmed "127.0.0.1".toList ∧
    unquote "127.0.0.1".toList = "127.0.0.1".toList ∧
    (parseFileToMap sampleConfig "config.ini" (fun _ => none) false).map (· "REDIS_HOST") =
      .ok (some " 127.0.0.1") ∧
    (parseFileToMap sampleConfig "plain.ini" (fun _ => none) false).map (· "REDIS_HOST") =
      .ok (some "127.0.0.1") := by
  decide +kernel

end ConfigLoader

end StreamGate.Config

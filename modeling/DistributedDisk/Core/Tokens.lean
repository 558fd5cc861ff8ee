import Mathlib.Tactic.Common

/-! The tokens of a text: its maximal non-empty runs between separators. -/
namespace Text
variable {α : Type*}

/-- The maximal non-empty runs of other characters, in order. -/
inductive Runs (separators : List α) : List α → List (List α) → Prop where
  | gap : (∀ c ∈ gap, c ∈ separators) → Runs separators gap []
  | run (gap : List α) : (∀ c ∈ gap, c ∈ separators) → token ≠ [] →
      (∀ c ∈ token, c ∉ separators) → (∀ c, rest.head? = some c → c ∈ separators) →
      Runs separators rest tokens → Runs separators (gap ++ (token ++ rest)) (token :: tokens)

/-- A function that finds the tokens of every text. -/
structure Tokenizer (separators : List α) where
  tokens : List α → List (List α)
  runs : ∀ text, Runs separators text (tokens text)

section exists_runs
variable {separators text : List α} {tokens : List (List α)}

theorem Runs.separator (runs : Runs separators text tokens) (member : c ∈ separators) :
    Runs separators (c :: text) tokens := by
  cases runs with
  | gap skips => exact .gap (List.forall_mem_cons.mpr ⟨member, skips⟩)
  | run gap skips some inside ends runs =>
    exact .run (c :: gap) (List.forall_mem_cons.mpr ⟨member, skips⟩) some inside ends runs

theorem Runs.other (runs : Runs separators text tokens) (other : c ∉ separators) :
    ∃ tokens, Runs separators (c :: text) tokens := by
  have single : ∀ d ∈ [c], d ∉ separators := by simpa using other
  cases runs with
  | gap skips =>
    refine ⟨_, .run [] nofun (List.cons_ne_nil c []) single (fun d head => ?_) (.gap skips)⟩
    exact skips d (List.mem_of_mem_head? head)
  | @run token rest tokens gap skips some inside ends runs =>
    cases gap with
    | nil =>
      exact ⟨_, .run [] nofun (List.cons_ne_nil c token)
        (List.forall_mem_cons.mpr ⟨other, inside⟩) ends runs⟩
    | cons d gap =>
      refine ⟨_, .run [] nofun (List.cons_ne_nil c []) single ?_
        (.run (d :: gap) skips some inside ends runs)⟩
      rintro _ ⟨⟩
      exact skips d (.head _)

theorem exists_runs (separators text : List α) : ∃ tokens, Runs separators text tokens := by
  induction text with
  | nil => exact ⟨[], .gap nofun⟩
  | cons c text ih =>
    obtain ⟨tokens, runs⟩ := ih
    by_cases member : c ∈ separators
    · exact ⟨tokens, runs.separator member⟩
    · exact runs.other member

end exists_runs

variable [DecidableEq α] {separators gap token text : List α} {tokens : List (List α)}

/-- The pieces between the separators, without the empty ones. -/
def split (separators text : List α) : List (List α) :=
  (text.splitOnP (· ∈ separators)).filter (· ≠ [])

theorem split_append_cons (before after : List α) (member : c ∈ separators) :
    split separators (before ++ c :: after) = split separators before ++ split separators after := by
  rw [split, List.splitOnP_append_cons _ _ (by simpa using member), List.filter_append]
  rfl

theorem split_nil : split separators ([] : List α) = [] := rfl

theorem split_separator (member : c ∈ separators) :
    split separators (c :: text) = split separators text :=
  split_append_cons [] text member

theorem split_gap (skips : ∀ c ∈ gap, c ∈ separators) (text : List α) :
    split separators (gap ++ text) = split separators text := by
  induction gap with
  | nil => rfl
  | cons c gap ih =>
    obtain ⟨member, skips⟩ := List.forall_mem_cons.mp skips
    rw [List.cons_append, split_separator member, ih skips]

theorem split_token (nonempty : token ≠ []) (inside : ∀ c ∈ token, c ∉ separators) :
    split separators token = [token] := by
  rw [split, List.splitOnP_eq_singleton (by simpa using inside)]
  simp [nonempty]

/-- There is one way to cut a text into tokens. -/
theorem Runs.split_eq (runs : Runs separators text tokens) : split separators text = tokens := by
  induction runs with
  | gap skips => simpa [split_nil] using split_gap skips []
  | @run token rest tokens gap skips some inside ends runs ih =>
    rw [split_gap skips]
    cases rest with
    | nil =>
      rw [List.append_nil, split_token some inside, ← ih, split_nil]
    | cons c rest =>
      have member := ends c rfl
      rw [split_append_cons _ _ member, split_token some inside, ← ih, split_separator member]
      rfl

theorem Tokenizer.tokens_eq (tokenizer : Tokenizer separators) (text : List α) :
    tokenizer.tokens text = split separators text :=
  (tokenizer.runs text).split_eq.symm

def Tokenizer.split (separators : List α) : Tokenizer separators where
  tokens := Text.split separators
  runs := by
    intro text
    obtain ⟨tokens, runs⟩ := exists_runs separators text
    rw [runs.split_eq]
    exact runs

/-- Where lines are cut by a separator, the tokens are those of the lines. -/
theorem split_intercalate (member : c ∈ separators) (lines : List (List α)) :
    split separators ([c].intercalate lines) = lines.flatMap (split separators) := by
  induction lines with
  | nil => rfl
  | cons line lines ih =>
    cases lines with
    | nil => simp [List.intercalate]
    | cons next lines =>
      rw [List.flatMap_cons, ← ih, ← split_append_cons line _ member]
      rfl

end Text

import DistributedDisk.ConfigManager
import Mathlib.Algebra.Ring.Parity

/-! Lines that are no entries: `ReadConfigFile` pairs the tokens across them. -/
namespace DistributedDisk.ConfigManager
open Text

/-- The line is "key:value", with one colon. -/
def WellFormed (line : List Char) : Prop := ∃ entry : Entry, line = entry.line

/-- What is asked: the iterator stays in bounds, and a malformed line is refused. -/
structure Rejects (tokenizer : Tokenizer [':', '\n']) (str : List Char) : Prop where
  inBounds : readConfigFile tokenizer str ≠ .error .pastEnd
  malformed : (∃ line ∈ str.splitOn '\n', line ≠ [] ∧ ¬WellFormed line) →
    readConfigFile tokenizer str = .error .configFailException

theorem readPairs_cases (tokens : List (List Char)) (values : ConfigMap) :
    Odd tokens.length ∧ readPairs tokens values = .error .pastEnd ∨
      Even tokens.length ∧ ∃ configMap, readPairs tokens values = .ok configMap := by
  induction tokens, values using readPairs.induct with
  | case1 values => exact .inr ⟨.zero, values, rfl⟩
  | case2 key values => exact .inl ⟨odd_one, rfl⟩
  | case3 values key value tokens ih =>
    rcases ih with ⟨odd, failed⟩ | ⟨even, read⟩
    · exact .inl ⟨odd.add_even even_two, failed⟩
    · exact .inr ⟨even.add even_two, read⟩

theorem readConfigFile_cases (tokenizer : Tokenizer [':', '\n']) (str : List Char) :
    Odd (tokenizer.tokens str).length ∧ readConfigFile tokenizer str = .error .pastEnd ∨
      Even (tokenizer.tokens str).length ∧
        ∃ configMap, readConfigFile tokenizer str = .ok configMap := by
  rcases readPairs_cases (tokenizer.tokens str) fun _ => none with
    ⟨odd, failed⟩ | ⟨even, configMap, read⟩
  · refine .inl ⟨odd, ?_⟩
    rw [readConfigFile, failed]
    rfl
  · refine .inr ⟨even, configMap, ?_⟩
    rw [readConfigFile, read]
    rfl

theorem exists_content {str : List Char}
    (wellFormed : ∀ line ∈ str.splitOn '\n', line ≠ [] → WellFormed line) :
    ∃ lines, str = content lines := by
  have lines (texts : List (List Char)) (each : ∀ text ∈ texts, text ≠ [] → WellFormed text) :
      ∃ lines : List (Option Entry), texts = lines.map line := by
    induction texts with
    | nil => exact ⟨[], rfl⟩
    | cons text texts ih =>
      obtain ⟨first, each⟩ := List.forall_mem_cons.mp each
      obtain ⟨lines, rfl⟩ := ih each
      by_cases empty : text = []
      · exact ⟨none :: lines, by rw [empty]; rfl⟩
      · obtain ⟨entry, rfl⟩ := first empty
        exact ⟨some entry :: lines, rfl⟩
  obtain ⟨lines, equal⟩ := lines _ wellFormed
  refine ⟨lines, ?_⟩
  rw [content, ← equal, List.intercalate_splitOn]

/-- Malformed lines are never refused; the iterator runs past the end exactly at an odd
number of tokens. -/
theorem readConfigFile_rejects_iff (tokenizer : Tokenizer [':', '\n']) (str : List Char) :
    (Rejects tokenizer str ↔ ∀ line ∈ str.splitOn '\n', line ≠ [] → WellFormed line) ∧
      (readConfigFile tokenizer str = .error .pastEnd ↔ Odd (tokenizer.tokens str).length) := by
  have cases := readConfigFile_cases tokenizer str
  constructor
  · constructor
    · intro rejects line member nonempty
      by_contra malformed
      have refused := rejects.malformed ⟨line, member, nonempty, malformed⟩
      rcases cases with ⟨-, failed⟩ | ⟨-, configMap, read⟩
      · exact rejects.inBounds failed
      · cases read.symm.trans refused
    · intro wellFormed
      obtain ⟨lines, rfl⟩ := exists_content wellFormed
      have read := readConfigFile_content tokenizer lines
      constructor
      case inBounds =>
        rw [read]
        exact nofun
      case malformed =>
        rintro ⟨line, member, nonempty, malformed⟩
        exact absurd (wellFormed line member nonempty) malformed
  · rcases cases with ⟨odd, failed⟩ | ⟨even, configMap, read⟩
    · exact iff_of_true failed odd
    · refine iff_of_false ?_ (Nat.not_odd_iff_even.mpr even)
      rw [read]
      exact nofun

/-- "A:", "B:1" and "C:" are read as the pairs A, B and 1, C. -/
theorem readConfigFile_misread : ¬∀ tokenizer str, Rejects tokenizer str := by
  intro rejects
  let str : List Char := ['A', ':', '\n', 'B', ':', '1', '\n', 'C', ':', '\n']
  have malformed : ¬WellFormed ['A', ':'] := by
    rintro ⟨entry, equal⟩
    have length := congrArg List.length equal
    have key := List.length_pos_iff.mpr entry.key_ne_nil
    have value := List.length_pos_iff.mpr entry.value_ne_nil
    simp only [Entry.line, List.length_append, List.length_cons, List.length_nil] at length
    omega
  have refused := (rejects (.split _) str).malformed ⟨_, by decide, by decide, malformed⟩
  have read : (readConfigFile (.split _) str).isOk = true := by decide
  rw [refused] at read
  cases read

end DistributedDisk.ConfigManager

import DistributedDisk.Core.Tokens
import Mathlib.Logic.Function.Basic

/-! The configuration file: one flat stream of tokens, of which keys and values are read in
turn. -/
namespace DistributedDisk.ConfigManager
open Text

/-- Reading the iterator past the end is no exception. -/
inductive Failure where
  | pastEnd
  | configFailException
  | configNotFound
  deriving DecidableEq

def Failure.isException : Failure → Bool
  | .pastEnd => false
  | .configFailException | .configNotFound => true

abbrev ConfigMap := List Char → Option (List Char)

def getConfig (configMap : ConfigMap) (configKey : List Char) : Except Failure (List Char) :=
  match configMap configKey with
  | none => .error .configNotFound
  | some value => .ok value

theorem getConfig_ok {configMap : ConfigMap} {key value : List Char} :
    getConfig configMap key = .ok value ↔ configMap key = some value := by
  rw [getConfig]
  cases configMap key with
  | none => simp
  | some value => simp

/-- The loop over the tokens: `++tok_iter` after the last one is the end, which `*` reads. -/
def readPairs : List (List Char) → ConfigMap → Except Failure ConfigMap
  | [], values => .ok values
  | [_], _ => .error .pastEnd
  | key :: value :: tokens, values => readPairs tokens (Function.update values key (some value))

/-- The file's content, of a file that cannot be opened the empty one. -/
def readConfigFile (tokenizer : Tokenizer [':', '\n']) (str : List Char) :
    Except Failure ConfigMap :=
  tryCatch (readPairs (tokenizer.tokens str) fun _ => none) fun failure =>
    throw (if failure.isException then .configFailException else failure)

/-- A key and its value, as they may stand in a line. -/
structure Entry where
  key : List Char
  value : List Char
  key_ne_nil : key ≠ []
  value_ne_nil : value ≠ []
  key_inside : ∀ c ∈ key, c ∉ [':', '\n']
  value_inside : ∀ c ∈ value, c ∉ [':', '\n']

namespace Entry

def line (entry : Entry) : List Char := entry.key ++ ':' :: entry.value

theorem split_line (entry : Entry) : split [':', '\n'] entry.line = [entry.key, entry.value] := by
  rw [line, split_append_cons _ _ (.head _), split_token entry.key_ne_nil entry.key_inside,
    split_token entry.value_ne_nil entry.value_inside]
  rfl

end Entry

/-- A line of the file is empty, or it has an entry. -/
def line : Option Entry → List Char
  | none => []
  | some entry => entry.line

/-- The lines of a file, the last one empty where the file ends with a newline. -/
def content (lines : List (Option Entry)) : List Char := ['\n'].intercalate (lines.map line)

/-- What the loop adds to the map for the entries. -/
def insert (values : ConfigMap) (entry : Entry) : ConfigMap :=
  Function.update values entry.key (some entry.value)

theorem split_content (lines : List (Option Entry)) : split [':', '\n'] (content lines) =
    lines.reduceOption.flatMap fun entry => [entry.key, entry.value] := by
  rw [content, split_intercalate (by decide)]
  induction lines with
  | nil => rfl
  | cons first lines ih =>
    rw [List.map_cons, List.flatMap_cons, ih]
    cases first with
    | none => rfl
    | some entry => exact congrArg (· ++ _) entry.split_line

theorem readPairs_entries (entries : List Entry) (values : ConfigMap) :
    readPairs (entries.flatMap fun entry => [entry.key, entry.value]) values =
      .ok (entries.foldl insert values) := by
  induction entries generalizing values with
  | nil => rfl
  | cons entry entries ih => exact ih (insert values entry)

/-- The entries of a file, read in order. -/
theorem readConfigFile_content (tokenizer : Tokenizer [':', '\n']) (lines : List (Option Entry)) :
    readConfigFile tokenizer (content lines) =
      .ok (lines.reduceOption.foldl insert fun _ => none) := by
  rw [readConfigFile, tokenizer.tokens_eq, split_content, readPairs_entries]
  rfl

/-- A key that is in none of the entries keeps its value. -/
theorem foldl_insert_absent {entries : List Entry} {key : List Char}
    (absent : ∀ entry ∈ entries, entry.key ≠ key) (values : ConfigMap) :
    entries.foldl insert values key = values key := by
  induction entries generalizing values with
  | nil => rfl
  | cons entry entries ih =>
    obtain ⟨different, absent⟩ := List.forall_mem_cons.mp absent
    exact (ih absent _).trans (Function.update_of_ne different.symm _ _)

/-- `GetConfig` knows the last line of each key, and no other string. -/
structure Knows (configMap : ConfigMap) (entries : List Entry) : Prop where
  last : ∀ before entry after, entries = before ++ entry :: after →
    (∀ later ∈ after, later.key ≠ entry.key) → getConfig configMap entry.key = .ok entry.value
  other : ∀ key, (∀ entry ∈ entries, entry.key ≠ key) →
    getConfig configMap key = .error .configNotFound

theorem knows_foldl (entries : List Entry) :
    Knows (entries.foldl insert fun _ => none) entries := by
  constructor
  case last =>
    rintro before entry after rfl absent
    rw [getConfig_ok, List.foldl_append, List.foldl_cons, foldl_insert_absent absent, insert,
      Function.update_self]
  case other =>
    intro key absent
    rw [getConfig, foldl_insert_absent absent]

/-- A file of entries, with empty lines anywhere, is read back. -/
theorem readConfigFile_roundTrip (tokenizer : Tokenizer [':', '\n'])
    (lines : List (Option Entry)) : ∃ configMap,
      readConfigFile tokenizer (content lines) = .ok configMap ∧
        Knows configMap lines.reduceOption := by
  refine ⟨_, readConfigFile_content tokenizer lines, ?_⟩
  exact knows_foldl lines.reduceOption

/-- "K:1", an empty line and "K:2", without a final newline. -/
theorem readConfigFile_roundTrip_repeated : ∃ configMap,
    readConfigFile (.split _) ['K', ':', '1', '\n', '\n', 'K', ':', '2'] = .ok configMap ∧
      getConfig configMap ['K'] = .ok ['2'] := by
  let first : Entry := ⟨['K'], ['1'], by decide, by decide, by simp, by simp⟩
  let second : Entry := ⟨['K'], ['2'], by decide, by decide, by simp, by simp⟩
  obtain ⟨configMap, read, knows⟩ :=
    readConfigFile_roundTrip (.split _) [some first, none, some second]
  exact ⟨configMap, read, knows.last [first] second [] rfl nofun⟩

end DistributedDisk.ConfigManager

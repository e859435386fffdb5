import Mathlib.Data.String.Basic
import Venturi.Text.Template

namespace Venturi

open Text

/-!
# Table prefixes and the names made from them (`postgres/mod.rs`, `postgres/migrations.rs`)

Several queues share one database, each under a table prefix of its own.

* `validatePrefix` — what `PostgresStore::connect` admits as a prefix.
* `migrations` — the embedded schema, as the statements of each version with the names
  they mention, before the prefix is substituted.
* `names` — every table and index name the prefix produces; `channel` — its `NOTIFY`
  channel.

An accepted prefix yields identifiers that PostgreSQL neither folds nor truncates, and no
two accepted prefixes have a name in common.
-/

/-! ### Validating a prefix -/

/-- `LONGEST_SUFFIX_LEN`. -/
def longestSuffixLen : Nat := "_refinery_schema_history".utf8ByteSize

def maxPrefixLen : Nat := 63 - longestSuffixLen

/-- The characters of `[a-z0-9_]`. -/
def isPermitted (c : Char) : Bool := c.isLower || c.isDigit || c == '_'

/-- `validate_prefix`, with the text of the `Error::Config` it returns. -/
def validatePrefix (tablePrefix : String) : Except String Unit :=
  match tablePrefix.toList with
  | [] => .error "table prefix must not be empty"
  | first :: _ =>
      if maxPrefixLen < tablePrefix.utf8ByteSize then
        .error ("table prefix " ++ tablePrefix.quote ++ " is too long (" ++
          toString tablePrefix.utf8ByteSize ++ " chars); at most " ++ toString maxPrefixLen ++
          " are allowed so every generated identifier stays within PostgreSQL's 63-character limit")
      else if !first.isLower then
        .error ("table prefix " ++ tablePrefix.quote ++ " must start with a lowercase ASCII letter")
      else
        match tablePrefix.toList.find? (fun c => !isPermitted c) with
        | some bad =>
            .error ("table prefix " ++ tablePrefix.quote ++ " contains the disallowed character " ++
              bad.quote ++ "; only [a-z0-9_] are permitted")
        | none => .ok ()

/-! ### The schema -/

/-- A statement of a migration, with the names of the relations it mentions. -/
inductive Ddl where
  | createTable (name : String) (references : List String)
  | createIndex (name on : String)
  | dropIndex (name : String)
  deriving DecidableEq, Repr

/-- Every name the statement mentions. -/
def Ddl.names : Ddl → List String
  | .createTable name references => name :: references
  | .createIndex name on => [name, on]
  | .dropIndex name => [name]

/-- The statement with `f` applied to its names. -/
def Ddl.map (f : String → String) : Ddl → Ddl
  | .createTable name references => .createTable (f name) (references.map f)
  | .createIndex name on => .createIndex (f name) (f on)
  | .dropIndex name => .dropIndex (f name)

@[simp] theorem Ddl.names_map (f : String → String) (d : Ddl) :
    (d.map f).names = d.names.map f := by
  cases d <;> rfl

/-- The token a migration writes where the prefix belongs. -/
def prefixToken : String := "\x7b\x7bprefix\x7d\x7d"

/-- `migrations/V1__initial.sql`. -/
def v1Initial : List Ddl := [
  .createTable "\x7b\x7bprefix\x7d\x7d_jobs" [],
  .createTable "\x7b\x7bprefix\x7d\x7d_journal" ["\x7b\x7bprefix\x7d\x7d_jobs"],
  .createIndex "\x7b\x7bprefix\x7d\x7d_jobs_claim" "\x7b\x7bprefix\x7d\x7d_jobs",
  .createIndex "\x7b\x7bprefix\x7d\x7d_jobs_claim_priority" "\x7b\x7bprefix\x7d\x7d_jobs",
  .createIndex "\x7b\x7bprefix\x7d\x7d_jobs_visible" "\x7b\x7bprefix\x7d\x7d_jobs",
  .createIndex "\x7b\x7bprefix\x7d\x7d_jobs_dedup" "\x7b\x7bprefix\x7d\x7d_jobs",
  .createIndex "\x7b\x7bprefix\x7d\x7d_jobs_lease" "\x7b\x7bprefix\x7d\x7d_jobs",
  .createIndex "\x7b\x7bprefix\x7d\x7d_jobs_history" "\x7b\x7bprefix\x7d\x7d_jobs",
  .createIndex "\x7b\x7bprefix\x7d\x7d_journal_job" "\x7b\x7bprefix\x7d\x7d_journal",
  .createIndex "\x7b\x7bprefix\x7d\x7d_journal_kind" "\x7b\x7bprefix\x7d\x7d_journal"]

/-- `migrations/V2__history_cursor.sql`. -/
def v2HistoryCursor : List Ddl := [
  .createIndex "\x7b\x7bprefix\x7d\x7d_jobs_created" "\x7b\x7bprefix\x7d\x7d_jobs"]

/-- `migrations/V3__index_tuning.sql`. -/
def v3IndexTuning : List Ddl := [
  .dropIndex "\x7b\x7bprefix\x7d\x7d_jobs_claim",
  .createIndex "\x7b\x7bprefix\x7d\x7d_jobs_claim" "\x7b\x7bprefix\x7d\x7d_jobs",
  .dropIndex "\x7b\x7bprefix\x7d\x7d_jobs_claim_priority",
  .createIndex "\x7b\x7bprefix\x7d\x7d_jobs_claim_priority" "\x7b\x7bprefix\x7d\x7d_jobs",
  .dropIndex "\x7b\x7bprefix\x7d\x7d_jobs_dedup",
  .createIndex "\x7b\x7bprefix\x7d\x7d_jobs_dedup" "\x7b\x7bprefix\x7d\x7d_jobs",
  .createIndex "\x7b\x7bprefix\x7d\x7d_jobs_finished" "\x7b\x7bprefix\x7d\x7d_jobs",
  .dropIndex "\x7b\x7bprefix\x7d\x7d_journal_job",
  .createIndex "\x7b\x7bprefix\x7d\x7d_journal_job" "\x7b\x7bprefix\x7d\x7d_journal",
  .dropIndex "\x7b\x7bprefix\x7d\x7d_journal_kind"]

/-- `MIGRATIONS`. -/
def migrations : List (String × List Ddl) := [
  ("V1__initial", v1Initial),
  ("V2__history_cursor", v2HistoryCursor),
  ("V3__index_tuning", v3IndexTuning)]

/-! ### Generated names -/

/-- `str::replace`. -/
def replace (text token value : String) : String :=
  String.ofList (substitute token.toList value.toList 0 text.toList)

/-- The bodies `apply` hands to the runner: the name stays, the token is replaced. -/
def unapplied (tablePrefix : String) : List (String × List Ddl) :=
  migrations.map fun m => (m.1, m.2.map (Ddl.map (replace · prefixToken tablePrefix)))

/-- The migration-history table `apply` names. -/
def historyTable (tablePrefix : String) : String := tablePrefix ++ "_refinery_schema_history"

/-- `PostgresStore::channel`. -/
def channel (tablePrefix : String) : String := tablePrefix ++ "_jobs"

/-- Every table and index name that `tablePrefix` produces. -/
def names (tablePrefix : String) : List String :=
  historyTable tablePrefix ::
    (unapplied tablePrefix).flatMap fun m => m.2.flatMap Ddl.names

/-- What follows the prefix in a generated name. -/
def suffixes : List String := [
  "_refinery_schema_history", "_jobs", "_journal", "_jobs_claim", "_jobs_claim_priority",
  "_jobs_visible", "_jobs_dedup", "_jobs_lease", "_jobs_history", "_journal_job",
  "_journal_kind", "_jobs_created", "_jobs_finished"]

/-- No suffix is a proper suffix of another one. -/
theorem suffixes_suffixFree : SuffixFree (suffixes.map String.toList) := by decide +kernel

/-- The names of the migrations are the token followed by a suffix. -/
theorem template_eq :
    ∀ m ∈ migrations, ∀ d ∈ m.2, ∀ name ∈ d.names, ∃ s ∈ suffixes, name = prefixToken ++ s := by
  decide +kernel

theorem suffixes_fit : ∀ s ∈ suffixes, s.utf8ByteSize ≤ longestSuffixLen := by decide +kernel

/-- The suffixes use the characters a prefix may use. -/
theorem suffixes_permitted : ∀ s ∈ suffixes, ∀ c ∈ s.toList, isPermitted c := by
  have hall : (suffixes.all fun s => s.toList.all isPermitted) = true := by decide +kernel
  intro s hs
  exact List.all_eq_true.mp (List.all_eq_true.mp hall s hs)

/-! ### Accepted prefixes -/

/-- An ASCII character takes one byte. -/
theorem utf8Size_of_isPermitted {c : Char} (hc : isPermitted c) : c.utf8Size = 1 := by
  have hcases : ((97 ≤ c.val ∧ c.val ≤ 122) ∨ (48 ≤ c.val ∧ c.val ≤ 57)) ∨ c = '_' := by
    have hc : ((decide (97 ≤ c.val) && decide (c.val ≤ 122)) ||
        (decide (48 ≤ c.val) && decide (c.val ≤ 57)) || c == '_') = true := hc
    simpa using hc
  rw [Char.utf8Size_eq_one_iff]
  rcases hcases with (⟨-, hz⟩ | ⟨-, h9⟩) | rfl
  · exact UInt32.le_trans hz (by decide)
  · exact UInt32.le_trans h9 (by decide)
  · decide

/-- Permitted characters are one byte each. -/
theorem utf8Len_of_isPermitted {cs : List Char} (hcs : ∀ c ∈ cs, isPermitted c) :
    String.utf8Len cs = cs.length := by
  induction cs with
  | nil => rfl
  | cons c cs ih =>
    rw [String.utf8Len_cons, ih fun d hd => hcs d (List.mem_cons_of_mem c hd),
      utf8Size_of_isPermitted (hcs c List.mem_cons_self), List.length_cons]

/-- Over permitted characters the byte length is the number of characters. -/
theorem utf8ByteSize_of_isPermitted {s : String} (hs : ∀ c ∈ s.toList, isPermitted c) :
    s.utf8ByteSize = s.length := by
  rw [← String.utf8Len_toList, utf8Len_of_isPermitted hs, String.length_toList]

/-- The first character is one of `a-z`. -/
def StartsLower (s : String) : Prop := ∃ first rest, s.toList = first :: rest ∧ first.isLower

/-- `validatePrefix` accepts exactly the short lowercase identifiers. -/
theorem validatePrefix_iff (s : String) :
    validatePrefix s = .ok () ↔
      (1 ≤ s.length ∧ s.length ≤ 39) ∧ StartsLower s ∧ ∀ c ∈ s.toList, isPermitted c := by
  have hmax : maxPrefixLen = 39 := by decide
  constructor
  · intro hok
    unfold validatePrefix at hok
    cases hs : s.toList with
    | nil => simp [hs] at hok
    | cons first rest =>
      simp only [hs, hmax] at hok
      split_ifs at hok with hlen hfirst
      cases hbad : (first :: rest).find? (fun c => !isPermitted c) with
      | some bad => simp [hbad] at hok
      | none =>
        have hall : ∀ c ∈ s.toList, isPermitted c := by
          intro c hc
          rw [hs] at hc
          simpa using List.find?_eq_none.mp hbad c hc
        have hbytes := utf8ByteSize_of_isPermitted hall
        have hpos : s.length = rest.length + 1 := by
          rw [← String.length_toList, hs, List.length_cons]
        exact ⟨⟨by omega, by omega⟩, ⟨first, rest, hs, by simpa using hfirst⟩, hs ▸ hall⟩
  · rintro ⟨⟨-, hlen⟩, ⟨first, rest, hs, hfirst⟩, hall⟩
    have hbytes := utf8ByteSize_of_isPermitted hall
    have hgood : (first :: rest).find? (fun c => !isPermitted c) = none :=
      List.find?_eq_none.mpr fun c hc => by simp [hall c (hs ▸ hc)]
    simp only [validatePrefix, hs, hmax, hgood]
    rw [if_neg (by omega), if_neg (by simp [hfirst])]

/-- `[a-z][a-z0-9_]*` of at most 63 bytes: PostgreSQL takes the name as it is written. -/
structure IsIdentifier (name : String) : Prop where
  starts : StartsLower name
  permitted : ∀ c ∈ name.toList, isPermitted c
  fits : name.utf8ByteSize ≤ 63

/-- An accepted prefix followed by a suffix of the schema is an identifier. -/
theorem isIdentifier_append {p s : String} (hp : validatePrefix p = .ok ()) (hs : s ∈ suffixes) :
    IsIdentifier (p ++ s) := by
  obtain ⟨⟨-, hlen⟩, ⟨first, rest, hfirst, hlower⟩, hall⟩ := (validatePrefix_iff p).mp hp
  have hbytes := utf8ByteSize_of_isPermitted hall
  have hsuffix := suffixes_fit s hs
  have hlongest : longestSuffixLen = 24 := by decide
  constructor
  · exact ⟨first, rest ++ s.toList, by rw [String.toList_append, hfirst]; rfl, hlower⟩
  · intro c hc
    rw [String.toList_append, List.mem_append] at hc
    exact hc.elim (hall c) (suffixes_permitted s hs c)
  · rw [String.utf8ByteSize_append]
    omega

/-! ### Names of a prefix -/

/-- Every template is the token and a suffix, and the prefix replaces the token. -/
theorem replace_template {s : String} (hs : s ∈ suffixes) (p : String) :
    replace (prefixToken ++ s) prefixToken p = p ++ s := by
  have hclean : '\x7b' ∉ s.toList := by
    intro hbrace
    exact absurd (suffixes_permitted s hs _ hbrace) (by decide)
  rw [← String.toList_inj, replace, String.toList_ofList, String.toList_append,
    substitute_token (by decide), String.toList_append]
  exact congrArg _ (substitute_clean hclean)

/-- Every generated name is the prefix followed by a suffix. -/
theorem mem_names {p name : String} (h : name ∈ names p) : ∃ s ∈ suffixes, name = p ++ s := by
  rcases List.mem_cons.mp h with rfl | hbody
  · exact ⟨_, List.mem_cons_self, rfl⟩
  · obtain ⟨m', hm', hname⟩ := List.mem_flatMap.mp hbody
    obtain ⟨m, hm, rfl⟩ := List.mem_map.mp hm'
    obtain ⟨d', hd', hname⟩ := List.mem_flatMap.mp hname
    obtain ⟨d, hd, rfl⟩ := List.mem_map.mp hd'
    rw [Ddl.names_map] at hname
    obtain ⟨template, htemplate, rfl⟩ := List.mem_map.mp hname
    obtain ⟨s, hs, rfl⟩ := template_eq m hm d hd template htemplate
    exact ⟨s, hs, replace_template hs p⟩

/-- The channel is the prefix and a suffix. -/
theorem channel_suffix (p : String) : ∃ s ∈ suffixes, channel p = p ++ s :=
  ⟨"_jobs", by decide, rfl⟩

/-- Different prefixes have no generated name in common. -/
theorem names_disjoint {p q : String} (hpq : p ≠ q) : List.Disjoint (names p) (names q) := by
  intro name hp hq
  obtain ⟨s, hs, rfl⟩ := mem_names hp
  obtain ⟨t, ht, hts⟩ := mem_names hq
  rw [← String.toList_inj, String.toList_append, String.toList_append] at hts
  obtain ⟨heq, -⟩ := suffixes_suffixFree.append_inj (List.mem_map_of_mem hs)
    (List.mem_map_of_mem ht) hts
  exact hpq (String.toList_inj.mp heq)

/-- Different prefixes have different channels. -/
theorem channel_ne {p q : String} (hpq : p ≠ q) : channel p ≠ channel q := by
  intro h
  rw [channel, channel, ← String.toList_inj, String.toList_append, String.toList_append] at h
  exact hpq (String.toList_inj.mp (List.append_cancel_right h))

/-- Queues with different prefixes are isolated: a prefix is accepted exactly when it is a
lowercase identifier that leaves room for the suffixes, every name it generates is an
identifier, and no other accepted prefix generates that name or listens on its channel. -/
theorem prefixes_isolated :
    (∀ s : String, validatePrefix s = .ok () ↔
      (1 ≤ s.length ∧ s.length ≤ 39) ∧ StartsLower s ∧ ∀ c ∈ s.toList, isPermitted c) ∧
    (∀ p : String, validatePrefix p = .ok () →
      (∀ name ∈ names p, IsIdentifier name) ∧ IsIdentifier (channel p)) ∧
    ∀ p q : String, validatePrefix p = .ok () → validatePrefix q = .ok () → p ≠ q →
      List.Disjoint (names p) (names q) ∧ channel p ≠ channel q := by
  refine ⟨validatePrefix_iff, ?_, ?_⟩
  · intro p hp
    constructor
    · intro name hname
      obtain ⟨s, hs, rfl⟩ := mem_names hname
      exact isIdentifier_append hp hs
    · obtain ⟨s, hs, hchannel⟩ := channel_suffix p
      exact hchannel ▸ isIdentifier_append hp hs
  · intro p q _ _ hpq
    exact ⟨names_disjoint hpq, channel_ne hpq⟩

/-- Two prefixes of which one extends the other by `_jobs` share no name. -/
theorem prefixes_isolated_extension :
    (∀ name ∈ names "a_jobs", IsIdentifier name) ∧
    List.Disjoint (names "a") (names "a_jobs") ∧ channel "a" ≠ channel "a_jobs" :=
  ⟨(prefixes_isolated.2.1 "a_jobs" (by decide +kernel)).1,
    prefixes_isolated.2.2 "a" "a_jobs" (by decide +kernel) (by decide +kernel) (by decide)⟩

end Venturi

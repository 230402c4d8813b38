import Mathlib.Data.List.Forall2
import SqlLayout.Proofs.Dialect.Standard

/-!
# The class of a word over a history of registrations

A dialect is made by calls, one after the other, that register words or a command.  The class of a
word depends only on the classes under which the calls register it, in order: it is a keyword as soon
as one of them is, and takes the last of them otherwise (`classify_after`).  The standard dialect is
such a history itself, so the rule covers every dialect that is built on it
(`classify_after_standard`).
-/

namespace SqlLayout.Dialect

/-- A step in the making of a dialect. -/
inductive Call where
  | add (kind : WordKind) (words : List Text)
  | command (word : Text)
  deriving DecidableEq, Repr

/-- What a call makes of a dialect. -/
def apply (d : Dialect) : Call → Dialect
  | .add kind words => d.addWords kind words
  | .command word => d.addCommand word

/-- The dialect after some calls. -/
def after (d : Dialect) (calls : List Call) : Dialect := calls.foldl apply d

/-- The tables of keywords, as calls. -/
def keywordCalls : List Call :=
  [.add .keyword (Words.reserved.map String.toList), .add .keyword (Words.common.map String.toList)]

/-- The other tables, as calls. -/
def otherCalls : List Call :=
  [.add .type (Words.types.map String.toList), .add .function (Words.functions.map String.toList)]

-- Over any tables, since checking it with the standard ones in place would run the calls.
theorem after_four_tables (d : Dialect) (kind₁ kind₂ kind₃ kind₄ : WordKind)
    (ws₁ ws₂ ws₃ ws₄ : List Text) :
    d.after ([.add kind₁ ws₁, .add kind₂ ws₂] ++ [.add kind₃ ws₃, .add kind₄ ws₄]) =
      (((d.addWords kind₁ ws₁).addWords kind₂ ws₂).addWords kind₃ ws₃).addWords kind₄ ws₄ := rfl

/-- The standard dialect is what its tables make. -/
theorem after_tables : empty.after (keywordCalls ++ otherCalls) = standard :=
  after_four_tables empty _ _ _ _ _ _ _ _

theorem after_append (d : Dialect) (front back : List Call) :
    d.after (front ++ back) = (d.after front).after back := List.foldl_append

namespace Call

/-- Whether the call registers words. -/
def isAdd : Call → Bool
  | .add .. => true
  | .command _ => false

/-- The classes under which a call registers a word, one for each time. -/
def kinds (x : Text) : Call → List WordKind
  | .add kind words => (words.filter fun w => Text.upper x = Text.upper w).map fun _ => kind
  | .command _ => []

/-- The same call with its words in any order. -/
inductive Reorders : Call → Call → Prop
  | add (kind : WordKind) {ws ws' : List Text} (same : ws.Perm ws') :
      Reorders (.add kind ws) (.add kind ws')
  | command (word : Text) : Reorders (.command word) (.command word)

variable {call call' : Call} {x : Text}

theorem kinds_add_cons (kind : WordKind) (w : Text) (ws : List Text) :
    kinds x (.add kind (w :: ws)) =
      (if Text.upper x = Text.upper w then [kind] else []) ++ kinds x (.add kind ws) := by
  by_cases h : Text.upper x = Text.upper w <;> simp [kinds, h]

theorem kinds_of_not_isAdd (h : call.isAdd = false) : kinds x call = [] := by
  cases call with
  | add kind words => cases h
  | command word => rfl

/-- Only how often a call has a word matters. -/
theorem Reorders.kinds_eq (h : Reorders call call') : kinds x call = kinds x call' := by
  cases h with
  | add kind same =>
    rw [kinds, kinds, List.map_const', List.map_const', (same.filter _).length_eq]
  | command word => rfl

theorem keyword_mem_kinds : .keyword ∈ kinds x call ↔
    ∃ words, call = .add .keyword words ∧ ∃ w ∈ words, Text.upper x = Text.upper w := by
  cases call with
  | add kind words =>
    simp only [kinds, List.mem_map, List.mem_filter, decide_eq_true_eq, add.injEq]
    constructor
    · rintro ⟨w, ⟨hw, hsame⟩, rfl⟩
      exact ⟨words, ⟨rfl, rfl⟩, w, hw, hsame⟩
    · rintro ⟨_, ⟨rfl, rfl⟩, w, hw, hsame⟩
      exact ⟨w, ⟨hw, hsame⟩, rfl⟩
  | command word => simp [kinds]

end Call

/-! ## What decides -/

/-- The classes under which some calls register a word, in order. -/
def kindsOf (x : Text) (calls : List Call) : List WordKind := calls.flatMap (Call.kinds x)

theorem kindsOf_cons (x : Text) (call : Call) (calls : List Call) :
    kindsOf x (call :: calls) = call.kinds x ++ kindsOf x calls := rfl

theorem kindsOf_append (x : Text) (front back : List Call) :
    kindsOf x (front ++ back) = kindsOf x front ++ kindsOf x back := List.flatMap_append

/-- The class of a word that was registered under these classes, in this order. -/
def verdict (kinds : List WordKind) : Option WordKind :=
  if .keyword ∈ kinds then some .keyword else kinds.getLast?

theorem verdict_eq_keyword {kinds : List WordKind} :
    verdict kinds = some .keyword ↔ .keyword ∈ kinds := by
  unfold verdict
  split
  · next h => simp [h]
  · next h => exact ⟨fun hlast => List.mem_of_getLast? hlast, fun hmem => absurd hmem h⟩

/-- The last class wins, unless the word was a keyword before. -/
theorem verdict_concat (kinds : List WordKind) (kind : WordKind) :
    verdict (kinds ++ [kind]) =
      if verdict kinds = some .keyword then some .keyword else some kind := by
  simp only [verdict_eq_keyword]
  by_cases hold : .keyword ∈ kinds
  · simp [verdict, hold]
  · by_cases hnew : .keyword = kind <;> simp [verdict, hold, hnew]

variable {d : Dialect} {x : Text} {kinds : List WordKind}

/-- One registration adds its class to those of the word. -/
theorem classify_register_eq_verdict (h : d.classify x = verdict kinds) (kind : WordKind)
    (w : Text) : (d.register kind w).classify x =
      verdict (kinds ++ if Text.upper x = Text.upper w then [kind] else []) := by
  rw [classify_register]
  by_cases hsame : Text.upper x = Text.upper w
  · have hclass : d.classify w = verdict kinds := by rw [← h, classify, classify, hsame]
    rw [if_pos hsame, verdict_concat, hclass, h]
    by_cases hkeyword : verdict kinds = some .keyword <;> simp [hkeyword, hsame]
  · simp [hsame, h]

theorem classify_addWords_eq_verdict (h : d.classify x = verdict kinds) (kind : WordKind)
    (ws : List Text) :
    (d.addWords kind ws).classify x = verdict (kinds ++ Call.kinds x (.add kind ws)) := by
  induction ws generalizing d kinds with
  | nil => rwa [Call.kinds, List.filter_nil, List.map_nil, List.append_nil]
  | cons w ws ih =>
    have hfold : d.addWords kind (w :: ws) = (d.register kind w).addWords kind ws := rfl
    rw [hfold, Call.kinds_add_cons, ← List.append_assoc]
    exact ih (classify_register_eq_verdict h kind w)

/-- The class of a word is decided by the classes under which it was registered. -/
theorem classify_after (h : d.classify x = verdict kinds) (calls : List Call) :
    (d.after calls).classify x = verdict (kinds ++ kindsOf x calls) := by
  induction calls generalizing d kinds with
  | nil => simpa [after, kindsOf] using h
  | cons call calls ih =>
    have hfold : d.after (call :: calls) = (d.apply call).after calls := rfl
    rw [hfold, kindsOf_cons, ← List.append_assoc]
    refine ih ?_
    cases call with
    | add kind words => exact classify_addWords_eq_verdict h kind words
    | command word => rwa [Call.kinds, List.append_nil]

theorem classify_after_empty (calls : List Call) (x : Text) :
    (empty.after calls).classify x = verdict (kindsOf x calls) := by
  have hempty : empty.classify x = verdict [] := rfl
  rw [classify_after hempty, List.nil_append]

/-! ## Dialects built on the standard one -/

/-- The word is in a standard table of keywords, or a call registers it as a keyword. -/
def IsKeyword (calls : List Call) (x : Text) : Prop :=
  (∃ w ∈ Words.reserved ++ Words.common, Text.upper x = w.toList) ∨
    ∃ words, .add .keyword words ∈ calls ∧ ∃ w ∈ words, Text.upper x = Text.upper w

theorem keyword_mem_kindsOf {calls : List Call} : .keyword ∈ kindsOf x calls ↔
    ∃ words, .add .keyword words ∈ calls ∧ ∃ w ∈ words, Text.upper x = Text.upper w := by
  simp only [kindsOf, List.mem_flatMap, Call.keyword_mem_kinds]
  constructor
  · rintro ⟨_, hcall, words, rfl, hw⟩
    exact ⟨words, hcall, hw⟩
  · rintro ⟨words, hcall, hw⟩
    exact ⟨_, hcall, words, rfl, hw⟩

/-- The words of the tables are in upper case as they stand. -/
theorem keyword_mem_kindsOf_keywordCalls : .keyword ∈ kindsOf x keywordCalls ↔
    ∃ w ∈ Words.reserved ++ Words.common, Text.upper x = w.toList := by
  have hupper : ∀ w ∈ Words.reserved ++ Words.common, Text.upper w.toList = w.toList :=
    fun w hw => upper_standardWords (by
      rw [standardWords, List.append_assoc]
      exact List.mem_append_left _ hw)
  rw [keyword_mem_kindsOf]
  constructor
  · rintro ⟨words, hcall, _, hw, hsame⟩
    obtain ⟨table, rfl, htable⟩ : ∃ table : List String, words = table.map String.toList ∧
        ∀ w ∈ table, w ∈ Words.reserved ++ Words.common := by
      rcases List.mem_pair.mp hcall with hcall | hcall <;> cases hcall
      · exact ⟨_, rfl, fun _ hword => List.mem_append_left _ hword⟩
      · exact ⟨_, rfl, fun _ hword => List.mem_append_right _ hword⟩
    obtain ⟨w, hword, rfl⟩ := List.mem_map.mp hw
    exact ⟨w, htable w hword, hsame.trans (hupper w (htable w hword))⟩
  · rintro ⟨w, hw, hsame⟩
    rw [← hupper w hw] at hsame
    rcases List.mem_append.mp hw with hw | hw
    · exact ⟨_, List.mem_cons_self, _, List.mem_map_of_mem hw, hsame⟩
    · exact ⟨_, List.mem_cons_of_mem _ List.mem_cons_self, _, List.mem_map_of_mem hw, hsame⟩

theorem kindsOf_keywordCalls_eq_nil (h : .keyword ∉ kindsOf x keywordCalls) :
    kindsOf x keywordCalls = [] := by
  refine List.eq_nil_iff_forall_not_mem.mpr fun kind hkind => ?_
  obtain ⟨call, hcall, hmem⟩ := List.mem_flatMap.mp hkind
  obtain ⟨words, rfl⟩ : ∃ words, call = .add .keyword words := by
    rcases List.mem_pair.mp hcall with rfl | rfl
    · exact ⟨_, rfl⟩
    · exact ⟨_, rfl⟩
  obtain ⟨w, -, rfl⟩ := List.mem_map.mp hmem
  exact h hkind

theorem classify_standard_after (calls : List Call) (x : Text) : (standard.after calls).classify x =
    verdict (kindsOf x keywordCalls ++ kindsOf x (otherCalls ++ calls)) := by
  rw [← kindsOf_append, ← List.append_assoc, ← classify_after_empty, after_append, after_tables]

theorem isKeyword_iff {calls : List Call} : IsKeyword calls x ↔
    .keyword ∈ kindsOf x keywordCalls ++ kindsOf x (otherCalls ++ calls) := by
  have hother : .keyword ∉ kindsOf x otherCalls := by
    rw [keyword_mem_kindsOf]
    rintro ⟨words, hcall, -⟩
    simp [otherCalls] at hcall
  rw [IsKeyword, kindsOf_append, List.mem_append, List.mem_append, or_iff_right hother,
    keyword_mem_kindsOf_keywordCalls, keyword_mem_kindsOf]

/-- Commands say nothing about classes. -/
theorem kindsOf_filter_isAdd (x : Text) (calls : List Call) :
    kindsOf x (calls.filter Call.isAdd) = kindsOf x calls := by
  induction calls with
  | nil => rfl
  | cons call calls ih =>
    rw [kindsOf_cons, ← ih, List.filter_cons]
    split
    · rfl
    · next hcommand => rw [Call.kinds_of_not_isAdd (eq_false_of_ne_true hcommand), List.nil_append]

theorem kindsOf_eq_of_reorders {calls calls' : List Call}
    (h : List.Forall₂ Call.Reorders calls calls') (x : Text) :
    kindsOf x calls = kindsOf x calls' := by
  induction h with
  | nil => rfl
  | cons hcall _ ih => rw [kindsOf_cons, kindsOf_cons, hcall.kinds_eq, ih]

/-- A word is a keyword when it is in a standard table of keywords or some call registers it as one.
Any other word has the class of its last registration, counting those of the other tables before the
calls, or none.  Commands and the order of the words within a table or a call make no difference,
and a keyword stays one whatever is registered later. -/
theorem classify_after_standard (calls : List Call) (x : Text) :
    (IsKeyword calls x → (standard.after calls).classify x = some .keyword) ∧
    (¬ IsKeyword calls x →
      (standard.after calls).classify x = (kindsOf x (otherCalls ++ calls)).getLast?) ∧
    (standard.after calls).classify x = (standard.after (calls.filter Call.isAdd)).classify x ∧
    (∀ made, List.Forall₂ Call.Reorders (keywordCalls ++ otherCalls ++ calls) made →
      (standard.after calls).classify x = (empty.after made).classify x) ∧
    ∀ later, (standard.after calls).classify x = some .keyword →
      (standard.after (calls ++ later)).classify x = some .keyword := by
  refine ⟨fun h => ?_, fun h => ?_, ?_, fun made h => ?_, fun later h => ?_⟩
  · rw [classify_standard_after, verdict_eq_keyword]
    exact isKeyword_iff.mp h
  · rw [isKeyword_iff] at h
    have hnone := kindsOf_keywordCalls_eq_nil fun hmem => h (List.mem_append_left _ hmem)
    rw [classify_standard_after, verdict, if_neg h, hnone, List.nil_append]
  · rw [classify_standard_after, classify_standard_after, kindsOf_append, kindsOf_append,
      kindsOf_filter_isAdd]
  · rw [classify_after_empty, ← kindsOf_eq_of_reorders h, List.append_assoc, kindsOf_append,
      classify_standard_after]
  · rw [classify_standard_after, verdict_eq_keyword] at h ⊢
    rw [← List.append_assoc, kindsOf_append, ← List.append_assoc]
    exact List.mem_append_left _ h

end SqlLayout.Dialect

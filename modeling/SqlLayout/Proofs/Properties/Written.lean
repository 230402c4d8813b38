import SqlLayout.Proofs.Properties.Reading

/-!
# Writing property files

A key or value is written with a backslash in front of every character that would mean something
(`escape`), and reading takes exactly these backslashes out again (`unescape_escape`,
`cutKey_escape`).  So any keys and values can be written to a file, one pair to a line, between empty
lines and comments, and are read back (`get?_parse_write`).
-/

namespace SqlLayout.Properties

/-- A character as it is written in a key or value. -/
def escapeChar (c : Char) : Text :=
  if c = '\t' then ['\\', 't']
  else if c = '\n' then ['\\', 'n']
  else if c = '\r' then ['\\', 'r']
  else if c = '\x0c' then ['\\', 'f']
  else if c = '\\' || c = '=' || c = ':' || c = '#' || c = '!' || Text.isBlank c then ['\\', c]
  else [c]

/-- A key or value as it is written. -/
def escape (s : Text) : Text := s.flatMap escapeChar

/-- The line says nothing: there is nothing behind the white space in front, or a comment. -/
def IsRemark (line : Text) : Prop :=
  ∃ blank rest, line = blank ++ rest ∧ Text.allBlank blank = true ∧
    ∀ c ∈ rest.head?, c = '#' ∨ c = '!'

/-- A line to be written. -/
inductive Line where
  | entry (key value : Text)
  | remark (text : Text) (silent : IsRemark text) (one : '\n' ∉ text)

/-- A line as it is written. -/
def Line.text : Line → Text
  | .entry key value => escape key ++ '=' :: escape value
  | .remark text _ _ => text

/-- The pair that a line holds. -/
def Line.entry? : Line → Option (Text × Text)
  | .entry key value => some (key, value)
  | .remark _ _ _ => none

/-- A file of some lines. -/
def write (lines : List Line) : Text := ['\n'].intercalate (lines.map Line.text)

/-- The pairs that some lines hold, in order. -/
def entries (lines : List Line) : List (Text × Text) := lines.filterMap Line.entry?

/-! ## Written characters -/

/-- A character that stands for itself wherever it is. -/
structure IsPlain (c : Char) : Prop where
  visible : Text.isBlank c = false
  not_backslash : c ≠ '\\'
  not_separator : c ≠ '=' ∧ c ≠ ':'
  not_mark : c ≠ '#' ∧ c ≠ '!'

theorem unescapeChar_of_not_letter {c : Char} (h : c ≠ 't' ∧ c ≠ 'n' ∧ c ≠ 'r' ∧ c ≠ 'f') :
    unescapeChar c = c := by
  unfold unescapeChar
  split <;> simp_all

/-- A character is written as a backslash and what stands for it, or as it is. -/
theorem escapeChar_cases (c : Char) :
    (∃ e, escapeChar c = ['\\', e] ∧ unescapeChar e = c ∧ e ≠ '\n' ∧ e ≠ '\r') ∨
      escapeChar c = [c] ∧ IsPlain c := by
  by_cases htab : c = '\t'
  · subst htab
    exact .inl ⟨'t', rfl, rfl, by decide⟩
  by_cases hfeed : c = '\n'
  · subst hfeed
    exact .inl ⟨'n', rfl, rfl, by decide⟩
  by_cases hreturn : c = '\r'
  · subst hreturn
    exact .inl ⟨'r', rfl, rfl, by decide⟩
  by_cases hform : c = '\x0c'
  · subst hform
    exact .inl ⟨'f', rfl, rfl, by decide⟩
  rw [escapeChar, if_neg htab, if_neg hfeed, if_neg hreturn, if_neg hform]
  split
  · next h =>
    refine .inl ⟨c, rfl, unescapeChar_of_not_letter ?_, hfeed, hreturn⟩
    refine ⟨?_, ?_, ?_, ?_⟩ <;> rintro rfl <;> revert h <;> decide
  · next h =>
    simp only [Bool.or_eq_true, decide_eq_true_eq, not_or, Bool.not_eq_true] at h
    obtain ⟨⟨⟨⟨⟨hslash, heq⟩, hcolon⟩, hhash⟩, hbang⟩, hblank⟩ := h
    exact .inr ⟨rfl, hblank, hslash, ⟨heq, hcolon⟩, hhash, hbang⟩

theorem escape_cons (c : Char) (s : Text) : escape (c :: s) = escapeChar c ++ escape s := rfl

theorem not_mem_escape (s : Text) : '\n' ∉ escape s ∧ '\r' ∉ escape s := by
  have hone : ∀ c, '\n' ∉ escapeChar c ∧ '\r' ∉ escapeChar c := by
    intro c
    rcases escapeChar_cases c with ⟨e, he, -, hfeed, hreturn⟩ | ⟨he, hplain⟩
    · simp [he, Ne.symm hfeed, Ne.symm hreturn]
    · rw [he, List.mem_singleton, List.mem_singleton]
      constructor <;> rintro rfl <;> exact absurd hplain.visible (by decide)
  constructor <;> intro hmem <;> obtain ⟨c, -, hc⟩ := List.mem_flatMap.mp hmem
  · exact (hone c).1 hc
  · exact (hone c).2 hc

/-- What is written starts with a backslash or a plain character. -/
theorem head?_escape {s : Text} {c : Char} (h : (escape s).head? = some c) :
    Text.isBlank c = false ∧ c ≠ '#' ∧ c ≠ '!' := by
  cases s with
  | nil => cases h
  | cons a as =>
    rw [escape_cons] at h
    rcases escapeChar_cases a with ⟨e, he, -⟩ | ⟨he, hplain⟩
    · rw [he] at h
      obtain rfl : '\\' = c := Option.some.inj h
      decide
    · rw [he] at h
      obtain rfl : a = c := Option.some.inj h
      exact ⟨hplain.visible, hplain.not_mark⟩

theorem trailingBackslashes_escape (s : Text) : trailingBackslashes (escape s) % 2 = 0 := by
  have hone : ∀ c, trailingBackslashes (escapeChar c) % 2 = 0 := by
    intro c
    rcases escapeChar_cases c with ⟨e, he, -⟩ | ⟨he, hplain⟩
    · have hpair : ['\\', e] = ['\\'] ++ [e] := rfl
      rw [he, hpair, trailingBackslashes_concat]
      split <;> rfl
    · rw [he, ← List.nil_append [c], trailingBackslashes_concat, if_neg hplain.not_backslash]
  induction s with
  | nil => rfl
  | cons c s ih => rw [escape_cons, trailingBackslashes_append (hone c), ih]

/-! ## Reading back -/

theorem unescape_cons {c : Char} (h : c ≠ '\\') (s : Text) : unescape (c :: s) = c :: unescape s := by
  rw [unescape]
  · simp [h]
  · simp [h]

theorem unescape_escape (s : Text) : unescape (escape s) = s := by
  induction s with
  | nil => rfl
  | cons c s ih =>
    rw [escape_cons]
    rcases escapeChar_cases c with ⟨e, he, hback, -⟩ | ⟨he, hplain⟩
    · rw [he, List.cons_append, List.singleton_append, unescape, hback, ih]
    · rw [he, List.singleton_append, unescape_cons hplain.not_backslash, ih]

theorem cutKey_cons {c : Char} (h : IsPlain c) (s : Text) :
    cutKey (c :: s) = (c :: (cutKey s).1, (cutKey s).2) := by
  rw [cutKey]
  · simp [h.not_separator, h.visible]
  · simp [h.not_backslash]
  · simp [h.not_backslash]

/-- The key of a written line reaches up to its separator. -/
theorem cutKey_escape (key rest : Text) : cutKey (escape key ++ '=' :: rest) = (key, rest) := by
  induction key with
  | nil => rfl
  | cons c key ih =>
    rw [escape_cons, List.append_assoc]
    rcases escapeChar_cases c with ⟨e, he, hback, -⟩ | ⟨he, hplain⟩
    · rw [he, List.cons_append, List.singleton_append, cutKey, hback, ih]
    · rw [he, List.singleton_append, cutKey_cons hplain, ih]

theorem splitLine_escape (key value : Text) :
    splitLine (escape key ++ '=' :: escape value) = (key, value) := by
  have hvalue : (escape value).dropWhile Text.isBlank = escape value :=
    Text.trimStart_of_head fun c hc => (head?_escape hc).1
  rw [splitLine, cutKey_escape, hvalue, unescape_escape]

example : splitLine "a\\ b=\\=\\tc".toList = ("a b".toList, "=\tc".toList) := by decide

namespace Line

theorem text_entry (key value : Text) :
    (Line.entry key value).text = (escape key ++ ['=']) ++ escape value := by
  rw [text, List.append_assoc, List.singleton_append]

theorem not_mem_text (line : Line) : '\n' ∉ line.text := by
  cases line with
  | entry key value => simp [text, (not_mem_escape key).1, (not_mem_escape value).1]
  | remark text silent one => exact one

theorem opens_entry (key value : Text) : Opens (Line.entry key value).text := by
  cases hkey : (escape key).head? with
  | some c => exact ⟨c, by rw [text, List.head?_append, hkey]; rfl, head?_escape hkey⟩
  | none => exact ⟨'=', by rw [text, List.head?_append, hkey]; rfl, by decide⟩

end Line

theorem isSkipped_trimStart_remark {raw : Text} (h : IsRemark raw) :
    isSkipped (Text.trimStart raw) = true := by
  obtain ⟨blank, rest, rfl, hblank, hrest⟩ := h
  rw [Text.trimStart_append hblank]
  cases rest with
  | nil => rfl
  | cons c cs =>
    rcases hrest c rfl with rfl | rfl <;> rfl

/-- What is left of a line that says nothing says nothing. -/
theorem IsRemark.of_isPrefix {raw raw' : Text} (h : IsRemark raw) (hpre : raw' <+: raw) :
    IsRemark raw' := by
  obtain ⟨blank, rest, rfl, hblank, hrest⟩ := h
  rcases List.prefix_or_prefix_of_prefix hpre (List.prefix_append blank rest) with
    hinside | ⟨back, rfl⟩
  · refine ⟨raw', [], by simp, List.all_eq_true.mpr fun c hc => ?_, by simp⟩
    exact List.all_eq_true.mp hblank c (hinside.subset hc)
  · rw [List.prefix_append_right_inj] at hpre
    refine ⟨blank, back, rfl, hblank, fun c hc => hrest c ?_⟩
    obtain ⟨more, rfl⟩ := hpre
    rw [List.head?_append, Option.mem_def.mp hc]
    rfl

namespace Reader

variable {r : Reader}

theorem readLine_remark (h : r.pending = []) {raw : Text} (hraw : IsRemark raw) :
    r.readLine raw = r := by
  rw [readLine, h, isSkipped_trimStart_remark hraw]
  rfl

theorem readLine_entry (h : r.pending = []) (key value : Text) :
    r.readLine (Line.entry key value).text = ⟨[], r.found.put key value⟩ := by
  have heven : trailingBackslashes (Line.entry key value).text % 2 = 0 := by
    have hkey : trailingBackslashes (escape key ++ ['=']) = 0 := by
      rw [trailingBackslashes_concat, if_neg (by decide)]
    rw [Line.text_entry, trailingBackslashes_append (by rw [hkey]), trailingBackslashes_escape]
  rw [readLine_of_opens (Line.opens_entry key value), take, if_neg (by omega), h, List.nil_append,
    finish, Line.text, splitLine_escape]

/-- Reading a line adds its pair, whether or not a carriage return at its end is lost. -/
theorem readLine_text (h : r.pending = []) (line : Line) {raw : Text}
    (hraw : raw = line.text ∨ raw = Text.dropReturn line.text) :
    r.readLine raw = ⟨[], r.found.merge (entries [line])⟩ := by
  cases line with
  | entry key value =>
    have hkept : Text.dropReturn (Line.entry key value).text = (Line.entry key value).text := by
      refine Text.dropReturn_of_not_endsWith (eq_false_of_ne_true fun hends => ?_)
      have hmem := Text.mem_of_endsWith hends
      simp [Line.text, (not_mem_escape key).2, (not_mem_escape value).2] at hmem
    rw [hkept, or_self] at hraw
    rw [hraw, readLine_entry h]
    rfl
  | remark text silent one =>
    have hsilent : IsRemark raw := by
      rcases hraw with rfl | rfl
      · exact silent
      · exact silent.of_isPrefix (Text.dropReturn_isPrefix text)
    rw [readLine_remark h hsilent, ← h]
    rfl

theorem readText_write (lines : List Line) (found : Properties) :
    readText ⟨[], found⟩ (write lines) = found.merge (entries lines) := by
  induction lines generalizing found with
  | nil => exact readText_nil _
  | cons line lines ih =>
    cases lines with
    | nil =>
      have hwrite : write [line] = line.text := by simp [write]
      rw [hwrite, readText_line line.not_mem_text, readLine_text rfl line (.inl rfl)]
      rfl
    | cons next lines =>
      have hwrite : write (line :: next :: lines) = line.text ++ '\n' :: write (next :: lines) := by
        simp [write, List.intercalate_cons_cons]
      have hentries : entries (line :: next :: lines) = entries [line] ++ entries (next :: lines) := by
        rw [entries, entries, entries, ← List.filterMap_append, List.singleton_append]
      rw [hwrite, readText_feed line.not_mem_text, readLine_text rfl line (.inr rfl), ih, hentries,
        merge, merge, merge, List.foldl_append]

end Reader

/-! ## Keys and their values -/

theorem lookup_cons (p : Text × Text) (ps : Properties) (k : Text) :
    List.lookup k (p :: ps) = if k = p.1 then some p.2 else ps.lookup k := by
  rw [List.lookup_cons]
  by_cases hk : k = p.1
  · rw [if_pos hk, hk, beq_self_eq_true]
  · rw [if_neg hk, beq_false_of_ne hk]

theorem lookup_filter_ne (ps : Properties) (key k : Text) :
    (ps.filter fun p => p.1 != key).lookup k = if k = key then none else ps.lookup k := by
  induction ps with
  | nil => simp
  | cons p ps ih =>
    by_cases hp : p.1 = key
    · subst hp
      rw [List.filter_cons_of_neg (by simp), ih, lookup_cons]
      split <;> rfl
    · rw [List.filter_cons_of_pos (by simpa using hp), lookup_cons, lookup_cons, ih]
      by_cases hk : k = p.1
      · subst hk
        rw [if_pos rfl, if_neg hp, if_pos rfl]
      · rw [if_neg hk, if_neg hk]

theorem get?_put (ps : Properties) (key value k : Text) :
    (ps.put key value).get? k = if k = key then some value else ps.get? k := by
  rw [get?, get?, put, List.lookup_append, lookup_filter_ne, lookup_cons]
  split
  · rfl
  · exact Option.or_none

/-- The last value that is set for a key is the one that counts. -/
theorem get?_merge (ps qs : Properties) (k : Text) :
    (ps.merge qs).get? k = (qs.reverse.lookup k).or (ps.get? k) := by
  induction qs generalizing ps with
  | nil => rfl
  | cons q qs ih =>
    have hfold : ps.merge (q :: qs) = (ps.put q.1 q.2).merge qs := rfl
    rw [hfold, ih, get?_put, List.reverse_cons, List.lookup_append, Option.or_assoc, lookup_cons]
    split <;> rfl

theorem nodup_put {ps : Properties} (h : (ps.map (·.1)).Nodup) (key value : Text) :
    ((ps.put key value).map (·.1)).Nodup := by
  rw [put, List.map_append, List.map_singleton, List.nodup_append]
  refine ⟨h.sublist (List.filter_sublist.map _), List.pairwise_singleton _ _, ?_⟩
  simp only [List.mem_map, List.mem_filter, List.mem_singleton]
  rintro k ⟨p, ⟨-, hp⟩, rfl⟩ _ rfl
  simpa using hp

theorem nodup_merge {ps : Properties} (h : (ps.map (·.1)).Nodup) (qs : Properties) :
    ((ps.merge qs).map (·.1)).Nodup := by
  induction qs generalizing ps with
  | nil => exact h
  | cons q qs ih => exact ih (nodup_put h q.1 q.2)

/-- Any pairs of keys and values are read back from the lines they are written to, whatever empty
lines and comments stand between them: every key has the last value written for it, and no other key
is found. -/
theorem get?_parse_write (lines : List Line) :
    ((parse (write lines)).map (·.1)).Nodup ∧
      ∀ key, (parse (write lines)).get? key = (entries lines).reverse.lookup key := by
  rw [Reader.parse_eq_readText, Reader.readText_write]
  have hnone : (([] : Properties).map (·.1)).Nodup := List.nodup_nil
  refine ⟨nodup_merge hnone _, fun key => ?_⟩
  rw [get?_merge]
  exact Option.or_none

end SqlLayout.Properties

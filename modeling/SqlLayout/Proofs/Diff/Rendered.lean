import SqlLayout.Proofs.Diff.Lines
import SqlLayout.Proofs.Diff.Script

/-!
# What a rendered difference shows

Behind its header a rendered difference is a row of entries, each a sign and a line.  The lines of the
old text are those with a blank or a minus, the lines of the new text those with a blank or a plus; only
a last line without an end is given one.  Cutting the rendered text behind its line ends gives the
entries back (`render_shows`).
-/

namespace SqlLayout.Diff

/-- A header line: marks in front of the path. -/
def headerLine (marks path : Text) : Text := marks ++ path ++ ['\n']

/-- The two header lines. -/
def header (path : Text) : Text := headerLine "--- ".toList path ++ headerLine "+++ ".toList path

/-- A text whose last line is ended. -/
def closeText (s : Text) : Text := if s = [] then [] else closeLine s

namespace Change

def line : Change → Text
  | .keep line | .delete line | .insert line => line

def sign : Change → Char
  | .keep _ => ' '
  | .delete _ => '-'
  | .insert _ => '+'

/-- The line of the old text, of a change with a blank or a minus. -/
def old? : Change → Option Text
  | .keep line | .delete line => some line
  | .insert _ => none

/-- The line of the new text, of a change with a blank or a plus. -/
def new? : Change → Option Text
  | .keep line | .insert line => some line
  | .delete _ => none

/-- The change with its line ended. -/
def close : Change → Change
  | .keep line => .keep (closeLine line)
  | .delete line => .delete (closeLine line)
  | .insert line => .insert (closeLine line)

/-- A change as it is written: its sign, then its line. -/
def entry (c : Change) : Text := c.sign :: c.line

/-- Reads a change by its sign. -/
def ofEntry? : Text → Option Change
  | ' ' :: line => some (.keep line)
  | '-' :: line => some (.delete line)
  | '+' :: line => some (.insert line)
  | _ => none

theorem render_eq (c : Change) : c.render = c.close.entry := by
  cases c <;> rfl

theorem line_close (c : Change) : c.close.line = closeLine c.line := by
  cases c <;> rfl

theorem ofEntry?_entry (c : Change) : ofEntry? c.entry = some c := by
  cases c <;> rfl

theorem isLineEnd_sign (c : Change) : isLineEnd c.sign = false := by
  cases c <;> rfl

theorem old?_close (c : Change) : c.close.old? = c.old?.map closeLine := by
  cases c <;> rfl

theorem new?_close (c : Change) : c.close.new? = c.new?.map closeLine := by
  cases c <;> rfl

end Change

/-- Reads the changes off the lines behind the header. -/
def read? (path text : Text) : Option (List Change) :=
  ((lines text).drop (lines (header path)).length).mapM Change.ofEntry?

/-- `Shows path old new text cs`: behind the header `text` shows the changes `cs` from the old text to the
new one. -/
structure Shows (path old new text : Text) (cs : List Change) : Prop where
  written : text = header path ++ cs.flatMap Change.entry
  whole : ∀ c ∈ cs, Line c.line
  old_eq : (cs.filterMap Change.old?).flatten = closeText old
  new_eq : (cs.filterMap Change.new?).flatten = closeText new
  /-- There is one way to cut the text behind its line ends. -/
  cut : ∀ ls, Cut text ls ↔ ls = lines (header path) ++ cs.map Change.entry
  read : read? path text = some cs

variable {s t path old new : Text} {ls : List Text} {cs : List Change}

/-! ## Ending a line -/

theorem closeLine_of_endsLine (h : EndsLine s) : closeLine s = s := by
  rcases h with h | h <;> simp [closeLine, h]

theorem closeLine_of_not_endsLine (h : ¬ EndsLine s) : closeLine s = s ++ ['\n'] := by
  obtain ⟨hfeed, hreturn⟩ := not_or.mp h
  simp [closeLine, hfeed, hreturn]

theorem closeLine_append (ht : t ≠ []) (s : Text) : closeLine (s ++ t) = s ++ closeLine t := by
  by_cases h : EndsLine t
  · rw [closeLine_of_endsLine h, closeLine_of_endsLine ((endsLine_append ht s).mpr h)]
  · rw [closeLine_of_not_endsLine h, closeLine_of_not_endsLine (mt (endsLine_append ht s).mp h),
      List.append_assoc]

/-- Every piece of a text makes a line. -/
theorem Cut.line_closeLine (h : Cut s ls) : ∀ l ∈ ls, Line (closeLine l) := by
  induction h with
  | nothing => simp
  | rest hne one =>
    rw [List.forall_mem_singleton, closeLine_of_not_endsLine (not_endsLine one)]
    exact .ended one .feed
  | line one ends lone _ ih =>
    have hline := Line.ended one ends
    refine List.forall_mem_cons.mpr ⟨?_, ih⟩
    rwa [closeLine_of_endsLine hline.endsLine]

/-- Ending every piece of a text ends its last line. -/
theorem Cut.flatten_map_closeLine (h : Cut s ls) : (ls.map closeLine).flatten = closeText s := by
  induction h with
  | nothing => rfl
  | rest hne one => simp [closeText, hne]
  | @line body mark s ls one ends lone behind ih =>
    have hline := (Line.ended one ends).endsLine
    rw [List.map_cons, List.flatten_cons, ih, closeLine_of_endsLine hline, closeText, closeText]
    by_cases hs : s = []
    · simp [hs, ends.ne_nil, closeLine_of_endsLine hline]
    · rw [if_neg hs, if_neg (by simp [hs]), closeLine_append hs]

/-! ## The sides of a script -/

theorem EditScript.filterMap_old? {olds news : List Text} (h : EditScript olds news cs) :
    cs.filterMap Change.old? = olds := by
  induction h with
  | nil => rfl
  | keep line _ ih | delete line _ ih => exact congrArg (line :: ·) ih
  | insert line _ ih => exact ih

theorem EditScript.filterMap_new? {olds news : List Text} (h : EditScript olds news cs) :
    cs.filterMap Change.new? = news := by
  induction h with
  | nil => rfl
  | keep line _ ih | insert line _ ih => exact congrArg (line :: ·) ih
  | delete line _ ih => exact ih

/-- Ending the lines of the changes ends the lines of each side. -/
theorem filterMap_close {side : Change → Option Text} (hside : ∀ c, side c.close = (side c).map closeLine)
    (cs : List Change) : (cs.map Change.close).filterMap side = (cs.filterMap side).map closeLine := by
  rw [List.filterMap_map, List.map_filterMap]
  exact congrArg (cs.filterMap ·) (funext hside)

/-- A script has no other lines than its two sides. -/
theorem EditScript.line_mem {olds news : List Text} (h : EditScript olds news cs) :
    ∀ c ∈ cs, c.line ∈ olds ∨ c.line ∈ news := by
  induction h with
  | nil => simp
  | keep line _ ih | delete line _ ih | insert line _ ih =>
    refine List.forall_mem_cons.mpr ⟨by simp [Change.line], fun c hc => ?_⟩
    exact (ih c hc).imp (by simp_all) (by simp_all)

/-! ## The rendered text -/

theorem endsWith_header (path : Text) (c : Char) :
    Text.endsWith (header path) c = Text.endsWith ['\n'] c := by
  have hne : headerLine "+++ ".toList path ≠ [] := List.append_ne_nil_of_right_ne_nil _ (by simp)
  exact (Text.endsWith_append hne _ c).trans (Text.endsWith_append (List.cons_ne_nil '\n' []) _ c)

theorem Line.cons {c : Char} (hc : isLineEnd c = false) {line : Text} (h : Line line) : Line (c :: line) := by
  cases h with
  | ended one ends => exact .ended (List.forall_mem_cons.mpr ⟨hc, one⟩) ends

theorem Change.head?_entry (c : Change) : c.entry.head? ≠ some '\n' := by
  cases c <;> simp [entry, sign]

theorem mapM_ofEntry?_entry (cs : List Change) :
    (cs.map Change.entry).mapM Change.ofEntry? = some cs := by
  induction cs with
  | nil => rfl
  | cons c cs ih => simp [Change.ofEntry?_entry, ih]

/-- The rendered text is cut into the lines of the header and the entries. -/
theorem cut_entries (path : Text) (h : ∀ c ∈ cs, Line c.line) :
    Cut (header path ++ cs.flatMap Change.entry) (lines (header path) ++ cs.map Change.entry) := by
  have hentries : Cut (cs.map Change.entry).flatten (cs.map Change.entry) := by
    refine cut_flatten fun l hl => ?_
    obtain ⟨c, hc, rfl⟩ := List.mem_map.mp hl
    exact ⟨(h c hc).cons c.isLineEnd_sign, c.head?_entry⟩
  rw [List.flatMap_def]
  refine (cut_lines _).append (.inl (.inl ?_)) ?_ hentries
  · rw [endsWith_header]
    rfl
  · rw [endsWith_header]
    intro hreturn
    simp [Text.endsWith] at hreturn

theorem read?_entries (path : Text) (h : ∀ c ∈ cs, Line c.line) :
    read? path (header path ++ cs.flatMap Change.entry) = some cs := by
  rw [read?, (cut_entries path h).lines_eq, List.drop_left, mapM_ofEntry?_entry]

theorem line_headerLine {m : Char} {marks : Text} (hmarks : ∀ c ∈ m :: marks, isLineEnd c = false)
    (h : ∀ c ∈ path, isLineEnd c = false) :
    Line (headerLine (m :: marks) path) ∧ (headerLine (m :: marks) path).head? ≠ some '\n' := by
  refine ⟨.ended (List.forall_mem_append.mpr ⟨hmarks, h⟩) .feed, fun hhead => ?_⟩
  obtain rfl : m = '\n' := Option.some.inj hhead
  exact Bool.noConfusion (hmarks '\n' List.mem_cons_self)

/-- A path without a line end makes two header lines. -/
theorem lines_header (h : ∀ c ∈ path, isLineEnd c = false) :
    lines (header path) = [headerLine "--- ".toList path, headerLine "+++ ".toList path] := by
  have hminus : ∀ c ∈ ['-', '-', '-', ' '], isLineEnd c = false := by decide
  have hplus : ∀ c ∈ ['+', '+', '+', ' '], isLineEnd c = false := by decide
  have hfirst := line_headerLine hminus h
  have hsecond := line_headerLine hplus h
  have hflatten : header path = [headerLine "--- ".toList path, headerLine "+++ ".toList path].flatten := by
    rw [header, List.flatten_cons, List.flatten_cons, List.flatten_nil, List.append_nil]
  rw [hflatten]
  exact (cut_flatten (List.forall_mem_cons.mpr
    ⟨hfirst, List.forall_mem_singleton.mpr hsecond⟩)).lines_eq

theorem header_eq (path : Text) :
    header path = "--- ".toList ++ path ++ "\n+++ ".toList ++ path ++ ['\n'] := by
  have hmarks : ['\n'] ++ "+++ ".toList = "\n+++ ".toList := by decide
  calc header path
      = "--- ".toList ++ path ++ (['\n'] ++ "+++ ".toList) ++ path ++ ['\n'] := by
        simp only [header, headerLine, List.append_assoc]
    _ = _ := congrArg ("--- ".toList ++ path ++ · ++ path ++ ['\n']) hmarks

theorem render_eq_header (path old new : Text) :
    render path old new = header path ++ (script old new).flatMap Change.render :=
  congrArg (· ++ (script old new).flatMap Change.render) (header_eq path).symm

/-- Whatever script leads from the lines of one text to those of the other, its entries show the two. -/
theorem EditScript.shows (h : EditScript (lines old) (lines new) cs) (path : Text) :
    Shows path old new (header path ++ cs.flatMap Change.render) (cs.map Change.close) := by
  have hrender : cs.flatMap Change.render = (cs.map Change.close).flatMap Change.entry := by
    rw [List.flatMap_map]
    exact congrArg cs.flatMap (funext Change.render_eq)
  have hwhole : ∀ c ∈ cs.map Change.close, Line c.line := by
    refine List.forall_mem_map.mpr fun c hc => ?_
    rw [Change.line_close]
    rcases h.line_mem c hc with hold | hnew
    · exact (cut_lines old).line_closeLine _ hold
    · exact (cut_lines new).line_closeLine _ hnew
  rw [hrender]
  constructor
  · rfl
  · exact hwhole
  · rw [filterMap_close Change.old?_close, h.filterMap_old?, (cut_lines old).flatten_map_closeLine]
  · rw [filterMap_close Change.new?_close, h.filterMap_new?, (cut_lines new).flatten_map_closeLine]
  · intro ls
    rw [cut_iff, (cut_entries path hwhole).lines_eq, eq_comm]
  · exact read?_entries path hwhole

/-- A rendered difference is faithful.  The script leads from the lines of the old text to those of the
new one, and the rendered text shows it; so would every other script between these lines.  The header
is two lines unless the path has a line end. -/
theorem render_shows (path old new : Text) :
    EditScript (lines old) (lines new) (script old new) ∧
      Shows path old new (render path old new) ((script old new).map Change.close) ∧
      (∀ cs, EditScript (lines old) (lines new) cs →
        Shows path old new (header path ++ cs.flatMap Change.render) (cs.map Change.close)) ∧
      ((∀ c ∈ path, isLineEnd c = false) → lines (header path) =
        [headerLine "--- ".toList path, headerLine "+++ ".toList path]) :=
  ⟨editScript_script old new, render_eq_header path old new ▸ (editScript_script old new).shows path,
    fun _ h => h.shows path, lines_header⟩

/-- The last old line has no end and is not the last entry; it is given one. -/
theorem render_shows_open_line :
    EditScript (lines "a\rb".toList) (lines "a\r\nc".toList)
        [.delete "a\r".toList, .delete "b".toList, .insert "a\r\n".toList, .insert "c".toList] ∧
      (∀ c ∈ "q.sql".toList, isLineEnd c = false) ∧
      Shows "q.sql".toList "a\rb".toList "a\r\nc".toList
        (header "q.sql".toList ++ "-a\r-b\n+a\r\n+c\n".toList)
        [.delete "a\r".toList, .delete "b\n".toList, .insert "a\r\n".toList, .insert "c\n".toList] ∧
      lines (header "q.sql".toList) =
        [headerLine "--- ".toList "q.sql".toList, headerLine "+++ ".toList "q.sql".toList] := by
  have hold : lines "a\rb".toList = ["a\r".toList, "b".toList] := by decide
  have hnew : lines "a\r\nc".toList = ["a\r\n".toList, "c".toList] := by decide
  have hscript : EditScript (lines "a\rb".toList) (lines "a\r\nc".toList)
      [.delete "a\r".toList, .delete "b".toList, .insert "a\r\n".toList, .insert "c".toList] := by
    rw [hold, hnew]
    exact .delete _ (.delete _ (.insert _ (.insert _ .nil)))
  have hpath : ∀ c ∈ "q.sql".toList, isLineEnd c = false := by decide
  obtain ⟨-, -, hshows, htwo⟩ := render_shows "q.sql".toList "a\rb".toList "a\r\nc".toList
  exact ⟨hscript, hpath, hshows _ hscript, htwo hpath⟩

end SqlLayout.Diff

import SqlLayout.Proofs.Properties.Reading

/-!
# Lines that go on

A line may be cut in pieces and every piece but the last be written with a backslash behind it, on a
line of its own, with any white space in front.  Cuts can be made wherever an even number of
backslashes stands before them and no white space behind them.  The whole text is read as before
(`parse_spread`): reading a piece leaves the reader with what stands before the cut, and reading the
next one from there is reading both (`take_append`).
-/

namespace SqlLayout.Properties

/-- A line that is put together from its pieces.  With each further piece stands the white space that
its own line has in front. -/
def joined (head : Text) (pieces : List (Text × Text)) : Text := head ++ pieces.flatMap (·.2)

/-- A line that is written over several, a piece on each. -/
def spread : Text → List (Text × Text) → Text
  | head, [] => head
  | head, (blank, piece) :: pieces => head ++ '\\' :: '\n' :: spread (blank ++ piece) pieces

/-- Where a line may be cut. -/
structure Cuts (head : Text) (pieces : List (Text × Text)) : Prop where
  blank : ∀ p ∈ pieces, Text.allBlank p.1 = true ∧ '\n' ∉ p.1
  visible : ∀ p ∈ pieces, ∀ c ∈ p.2.head?, Text.isBlank c = false
  even : ∀ front p back, pieces = front ++ p :: back →
    trailingBackslashes (joined head front) % 2 = 0

variable {head : Text} {pieces : List (Text × Text)} {p : Text × Text}

theorem joined_cons (head : Text) (p : Text × Text) (pieces : List (Text × Text)) :
    joined head (p :: pieces) = head ++ joined p.2 pieces := by
  simp [joined]

namespace Cuts

theorem head_even (h : Cuts head (p :: pieces)) : trailingBackslashes head % 2 = 0 := by
  simpa [joined] using h.even [] p pieces rfl

/-- What follows the first cut is cut as well. -/
theorem tail (h : Cuts head (p :: pieces)) : Cuts p.2 pieces where
  blank q hq := h.blank q (List.mem_cons_of_mem p hq)
  visible q hq := h.visible q (List.mem_cons_of_mem p hq)
  even front q back hsplit := by
    have heven := h.even (p :: front) q back (by rw [hsplit, List.cons_append])
    rwa [joined_cons, trailingBackslashes_append h.head_even] at heven

end Cuts

namespace Reader

variable {blank after : Text} {r : Reader} {behind : Reader → Properties}

/-- The text behind a line is read from what the line leaves, however the line is written. -/
theorem exists_readText {line : Text} (h : Text.EndsAt line after) :
    ∃ behind : Reader → Properties, ∀ (r : Reader) (raw : Text), '\n' ∉ raw →
      Text.EndsAt raw after ∨ Text.allBlank raw = true →
      r.readText (raw ++ after) = behind (r.readLine raw) := by
  cases h with
  | nothing =>
    refine ⟨close, fun r raw hfeed _ => ?_⟩
    rw [List.append_nil, readText_line hfeed]
  | feed rest bare =>
    refine ⟨fun r => r.readText rest, fun r raw hfeed hraw => ?_⟩
    rw [readText_feed hfeed]
    refine congrArg (readText · rest) (readLine_congr ?_)
    rcases hraw with hraw | hraw
    · cases hraw with
      | feed _ bare => rw [Text.dropReturn_of_not_endsWith bare]
    · have hdropped : Text.allBlank (Text.dropReturn raw) = true :=
        List.all_eq_true.mpr fun c hc =>
          List.all_eq_true.mp hraw c ((Text.dropReturn_isPrefix raw).subset hc)
      rw [Text.trimStart_of_allBlank hraw, Text.trimStart_of_allBlank hdropped]
  | returnFeed rest =>
    refine ⟨fun r => r.readText rest, fun r raw hfeed _ => ?_⟩
    have hsplit : raw ++ '\r' :: '\n' :: rest = (raw ++ ['\r']) ++ '\n' :: rest := by simp
    rw [hsplit, readText_feed (by simp [hfeed]), Text.dropReturn_concat]

/-- White space in front of a piece says nothing. -/
theorem readLine_piece (hblank : Text.allBlank blank = true)
    (hvisible : ∀ c ∈ head.head?, Text.isBlank c = false) (hopen : r.pending ≠ [] ∨ Opens head) :
    r.readLine (blank ++ head) = r.take head := by
  have htrim : Text.trimStart (blank ++ head) = head := by
    rw [Text.trimStart_append hblank, Text.trimStart_of_head hvisible]
  rcases hopen with hpending | hopens
  · rw [readLine_eq_take (.inl hpending), htrim]
  · rw [← readLine_of_opens hopens]
    exact readLine_congr (by rw [htrim, Text.trimStart_of_head hvisible])

/-- A piece with a backslash behind it leaves the reader with what stands before the cut. -/
theorem readLine_cut (hblank : Text.allBlank blank = true)
    (hvisible : ∀ c ∈ head.head?, Text.isBlank c = false) (hopen : r.pending ≠ [] ∨ Opens head)
    (heven : trailingBackslashes head % 2 = 0) :
    r.readLine (blank ++ (head ++ ['\\'])) = ⟨r.pending ++ head, r.found⟩ := by
  have hhead : ∀ c ∈ (head ++ ['\\']).head?, Text.isBlank c = false := by
    intro c hc
    cases head with
    | nil =>
      obtain rfl : '\\' = c := Option.some.inj hc
      rfl
    | cons a as => exact hvisible c hc
  have hopens := hopen.imp_right fun h => Opens.append h ['\\']
  rw [readLine_piece hblank hhead hopens, take_concat_backslash heven]

/-- The lines of a spread line are read as the line in one. -/
theorem readText_spread
    (hbehind : ∀ (r : Reader) (raw : Text), '\n' ∉ raw →
      Text.EndsAt raw after ∨ Text.allBlank raw = true →
      r.readText (raw ++ after) = behind (r.readLine raw))
    (hcuts : Cuts head pieces) (hblank : Text.allBlank blank = true ∧ '\n' ∉ blank)
    (hvisible : ∀ c ∈ head.head?, Text.isBlank c = false) (hfeed : '\n' ∉ joined head pieces)
    (hends : Text.EndsAt (joined head pieces) after) (hopen : r.pending ≠ [] ∨ Opens head) :
    r.readText (spread (blank ++ head) pieces ++ after) =
      behind (r.take (joined head pieces)) := by
  induction pieces generalizing r head blank with
  | nil =>
    have hjoined : joined head [] = head := List.append_nil head
    rw [hjoined] at hfeed hends ⊢
    have hraw : Text.EndsAt (blank ++ head) after ∨ Text.allBlank (blank ++ head) = true := by
      by_cases hhead : head = []
      · exact .inr (by rw [hhead, List.append_nil, hblank.1])
      · exact .inl (hends.append hhead blank)
    rw [spread, hbehind r _ (by simp [hblank.2, hfeed]) hraw, readLine_piece hblank.1 hvisible hopen]
  | cons p pieces ih =>
    obtain ⟨blank', piece⟩ := p
    rw [joined_cons] at hfeed hends ⊢
    obtain ⟨hhead, hrest⟩ := not_or.mp (mt List.mem_append.mpr hfeed)
    have hline : spread (blank ++ head) ((blank', piece) :: pieces) ++ after =
        (blank ++ (head ++ ['\\'])) ++ '\n' :: (spread (blank' ++ piece) pieces ++ after) := by
      simp [spread]
    have hbare : Text.endsWith (blank ++ (head ++ ['\\'])) '\r' = false := by
      simp [Text.endsWith]
    have hopen' : r.pending ++ head ≠ [] ∨ Opens piece := by
      refine .inl fun hnil => ?_
      obtain ⟨hpending, rfl⟩ := List.append_eq_nil_iff.mp hnil
      rcases hopen with hopen | ⟨c, hc, -⟩
      · exact hopen hpending
      · cases hc
    rw [hline, readText_feed (by simp [hblank.2, hhead]), Text.dropReturn_of_not_endsWith hbare,
      readLine_cut hblank.1 hvisible hopen hcuts.head_even,
      ih hcuts.tail (hcuts.blank _ List.mem_cons_self) (hcuts.visible _ List.mem_cons_self) hrest
        hends.of_append hopen', take_append hcuts.head_even]

end Reader

/-- A line of a text may be spread over several, and the text is read as before.  Any line of the text
may be, as each has its place in it (`Text.exists_lineAt`). -/
theorem parse_spread {before after : Text} (hopens : Opens head) (hcuts : Cuts head pieces)
    (hline : Text.LineAt before (joined head pieces) after) :
    parse (before ++ spread head pieces ++ after) =
      parse (before ++ joined head pieces ++ after) := by
  obtain ⟨behind, hbehind⟩ := Reader.exists_readText hline.ends
  have hnothing : Text.allBlank [] = true ∧ '\n' ∉ ([] : Text) := ⟨rfl, List.not_mem_nil⟩
  have hjoined : Opens (joined head pieces) := hopens.append _
  -- whatever the lines before left, no logical line is skipped that opens like this one
  have hspread (r : Reader) : r.readText (spread head pieces ++ after) =
      r.readText (joined head pieces ++ after) := by
    rw [hbehind r _ hline.one (.inl hline.ends), Reader.readLine_of_opens hjoined]
    exact Reader.readText_spread hbehind hcuts hnothing hopens.visible hline.one hline.ends
      (.inr hopens)
  rw [Reader.parse_eq_readText, Reader.parse_eq_readText, List.append_assoc, List.append_assoc,
    Reader.readText_append hline.starts, Reader.readText_append hline.starts, hspread]

/-- A comment mark and an empty piece go on like anything else. -/
theorem parse_spread_twice :
    Opens "a=b".toList ∧ Cuts "a=b".toList [([' '], "# c".toList), ([], [])] ∧
      Text.LineAt "x\n".toList "a=b# c".toList "\r\ny".toList ∧
      parse "x\na=b\\\n # c\\\n\r\ny".toList =
        [("x".toList, []), ("a".toList, "b# c".toList), ("y".toList, [])] := by
  have hopens : Opens "a=b".toList := ⟨'a', rfl, by decide⟩
  have hcuts : Cuts "a=b".toList [([' '], "# c".toList), ([], [])] := by
    refine ⟨by decide, by simp [Text.isBlank], fun front p back hsplit => ?_⟩
    rcases front with _ | ⟨q, _ | ⟨q', front⟩⟩
    · decide
    · simp only [List.cons_append, List.nil_append, List.cons.injEq] at hsplit
      obtain ⟨rfl, -⟩ := hsplit
      decide
    · simp at hsplit
  have hline : Text.LineAt "x\n".toList "a=b# c".toList "\r\ny".toList :=
    ⟨.inr rfl, by decide, .returnFeed ['y']⟩
  refine ⟨hopens, hcuts, hline, (parse_spread hopens hcuts hline).trans ?_⟩
  decide +kernel

end SqlLayout.Properties

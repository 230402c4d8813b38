import SqlLayout.Proofs.Layout.Block
import SqlLayout.Proofs.Layout.Total
import SqlLayout.Proofs.Text.AsciiCase

/-!
# Walks that run past the end

With a delimiter that starts a line comment, a comment can shrink to the delimiter when a break is put
in front of it, and the walk goes on behind it.  Mostly that is a token which is passed over.  But where
the walk closes the line comment before, it goes on to visit the token, and there may be none left.  A
scan over the tokens tells when (`format_eq_none_iff`).
-/

namespace SqlLayout.Layout

/-! ## The scan -/

/-- What stands in front of the next token: nothing that the walk put there, a break, or a line comment
that lost its line feed. -/
inductive Ahead where
  | plain
  | broken
  | opened
  deriving DecidableEq, Repr

/-- What the walk knows between two tokens. -/
structure Outlook where
  /-- For each open bracket, innermost first, whether it is a function call. -/
  calls : List Bool
  /-- The text by which a function call is known. -/
  previous : Text
  ahead : Ahead
  deriving DecidableEq, Repr

namespace Outlook

/-- The outlook before the first token. -/
def start : Outlook := ⟨[], [' '], .plain⟩

/-- Whether a comment has shrunk to the delimiter when the walk gets behind the break in front of it. -/
def passes (s : Style) (o : Outlook) (t : Token) : Bool :=
  o.ahead != .plain && s.isDelimiter (settle t).text

/-- The token as it is visited. -/
def shown (o : Outlook) (t : Token) : Token := if o.ahead = .plain then t else settle t

/-- The outlook behind a token that is visited. -/
def visit (d : Dialect) (o : Outlook) (t : Token) : Outlook :=
  let calls := callsAfter o.calls (d.isFunction o.previous) t
  ⟨calls, t.text,
    if calls.any id then .plain
    else if endsLine t then .broken
    else if isOpenComment t then .opened
    else .plain⟩

/-- The outlook behind a delimiter that is passed over: two blanks stand there. -/
def pass (o : Outlook) : Outlook := ⟨o.calls, [' ', ' '], .plain⟩

/-- The outlook behind a token. -/
def next (d : Dialect) (s : Style) (o : Outlook) (t : Token) : Outlook :=
  if o.passes s t then o.pass else o.visit d (o.shown t)

end Outlook

/-- Whether the walk runs past the last token: that token stands right behind a line comment which lost
its line feed, and is a comment that shrinks to the delimiter there. -/
def overruns (d : Dialect) (s : Style) : Outlook → List Token → Bool
  | _, [] => false
  | o, t :: ts =>
    o.ahead == .opened && ts.isEmpty && !s.isDelimiter t.text && s.isDelimiter (settle t).text ||
      overruns d s (o.next d s t) ts

/-! ## Delimiters that start a line comment -/

section Hyphens

variable {d : Dialect} {s : Style}

/-- Upper case makes no hyphens. -/
theorem head?_of_upper {text : Text} (h : (Text.upper text).head? = some '-') : text.head? = some '-' := by
  cases text with
  | nil => simp [Text.upper] at h
  | cons c cs =>
    cases hc : Lexer.isLetter c with
    | true =>
      obtain ⟨hne, hletters⟩ := Text.isLetter_upperChar hc
      obtain ⟨x, xs, hx⟩ := List.exists_cons_of_ne_nil hne
      have hhead : x = '-' := by simpa [Text.upper, hx] using h
      have hletter := hletters x (by simp [hx])
      rw [hhead] at hletter
      exact absurd hletter (by decide)
    | false =>
      simpa [Text.upper, Text.upperChar_of_not_letter hc] using h

theorem isLineComment_of_upper {text : Text} (h : Dialect.isLineComment (Text.upper text) = true) :
    Dialect.isLineComment text = true := by
  obtain ⟨cs, hcs⟩ := (isLineComment_iff _).mp h
  have hfirst : text.head? = some '-' := head?_of_upper (by rw [hcs]; rfl)
  cases text with
  | nil => cases hfirst
  | cons c rest =>
    obtain rfl := Option.some.inj hfirst
    have hrest : Text.upper rest = '-' :: cs := by
      have hhyphen : Text.upperChar '-' = ['-'] := Text.upperChar_of_not_letter (by decide)
      simpa [Text.upper, hhyphen] using hcs
    have hsecond : rest.head? = some '-' := head?_of_upper (by rw [hrest]; rfl)
    cases rest with
    | nil => cases hsecond
    | cons c rest =>
      obtain rfl := Option.some.inj hsecond
      exact (isLineComment_iff _).mpr ⟨rest, rfl⟩

end Hyphens

/-! ## The tokens that the walk gets -/

/-- Token lists as the walk gets them: single white space tokens away from symbols and comments, line
comments that end their line, and two hyphens at the start of comments only. -/
structure Hyphened (ns : List Token) : Prop where
  apart : ns.IsChain Apart
  lines : EndsComments ns
  marks : ∀ t ∈ ns, Dialect.isLineComment t.text = true → t.kind = .comment
  last : ∀ t ∈ ns.getLast?, t.isSpace = false

section Tokens

variable {d : Dialect} {s : Style} {sql : Text} {t : Token}

theorem isLineComment_of_head? {text : Text} {c : Char} (hc : text.head? = some c) (hne : c ≠ '-') :
    Dialect.isLineComment text = false := by
  rw [Bool.eq_false_iff]
  intro hline
  obtain ⟨cs, rfl⟩ := (isLineComment_iff text).mp hline
  exact hne (Option.some.inj hc).symm

theorem kind_of_hyphens : ∀ t ∈ tokenize d sql, Dialect.isLineComment t.text = true → t.kind = .comment := by
  refine Lexer.forall_tokenizeFrom ?_ 0 sql
  intro c cs l hreads offset hline
  obtain ⟨rest, hrest⟩ := (isLineComment_iff _).mp hline
  cases hreads with
  | space c cs blank =>
    obtain rfl : c = '-' := (List.cons.inj hrest).1
    exact absurd blank (by decide)
  | number c cs digit =>
    obtain rfl : c = '-' := (List.cons.inj hrest).1
    exact absurd digit (by decide)
  | word c cs letter plain =>
    obtain rfl : c = '-' := (List.cons.inj hrest).1
    exact absurd letter (by decide)
  | command c cs line rest letter known =>
    obtain rfl : c = '-' := (List.cons.inj hrest).1
    exact absurd letter (by decide)
  | lineComment cs => rfl
  | blockComment cs => rfl
  | quoted c cs quote =>
    obtain rfl : c = '-' := (List.cons.inj hrest).1
    exact absurd quote (by decide)
  | single c cs symbol plain apart => simp at hrest
  | pair c c' cs pair =>
    simp only [List.cons.injEq] at hrest
    obtain ⟨rfl, rfl, -⟩ := hrest
    exact absurd pair (by decide)

/-- A keyword in its case starts with a letter. -/
theorem isLineComment_recase_keyword (ht : t ∈ tokenize d sql) (hkind : t.kind = .keyword) (text : Text) :
    Dialect.isLineComment ((recase s t).text ++ text) = false := by
  obtain ⟨c, cs, hcs, hletter, -⟩ :=
    (Text.isWord_apply s.keywordCase (isWord_of_mem_tokenize t ht hkind)).exists_head
  refine isLineComment_of_head? (c := c) ?_ ?_
  · rw [text_recase hkind, hcs]
    rfl
  · rintro rfl
    exact absurd hletter (by decide)

theorem kind_of_hyphens_normalize (ht : t ∈ normalize s (tokenize d sql))
    (hline : Dialect.isLineComment t.text = true) : t.kind = .comment := by
  have hkeyword {a : Token} (ha : a ∈ collapse (prepared s (tokenize d sql))) (hkind : a.kind = .keyword)
      (text : Text) : Dialect.isLineComment (a.text ++ text) = false := by
    rcases mem_collapseAfter ha with hspace | hprepared
    · simp [Token.isSpace, hkind] at hspace
    · obtain ⟨a', ha', rfl⟩ := mem_prepared hprepared
      exact isLineComment_recase_keyword ha' (by rwa [kind_recase] at hkind) text
  obtain ⟨b, block, hmem⟩ := (spells_normalize s (tokenize d sql)).exists_block ht
  cases block with
  | one =>
    have hmem' : t ∈ collapse (prepared s (tokenize d sql)) := hmem t (by simp)
    rcases mem_collapseAfter hmem' with hspace | hprepared
    · rw [text_of_mem_collapseAfter false _ t hmem' hspace] at hline
      exact absurd hline (by decide)
    · obtain ⟨t', ht', rfl⟩ := mem_prepared hprepared
      by_cases hkind : t'.kind = .keyword
      · have hword := hkeyword hmem' (by rwa [kind_recase]) []
        rw [List.append_nil, hline] at hword
        cases hword
      · rw [recase_of_kind_ne s hkind] at hline ⊢
        exact kind_of_hyphens t' ht' hline
  | clause a b c first space blank second =>
    have hword := hkeyword (hmem a (by simp)) first (' ' :: c.text)
    rw [show Dialect.isLineComment (a.text ++ ' ' :: c.text) = true from hline] at hword
    cases hword
  | outerJoin a b c first middle last =>
    have hline' : Dialect.isLineComment ['(', '+', ')'] = true := hline
    exact absurd hline' (by decide)
  | angled a b c first middle last =>
    have hline' : Dialect.isLineComment (['<'] ++ b.text ++ c.text) = true := text_of_isSymbol first ▸ hline
    rw [isLineComment_of_head? rfl (by decide)] at hline'
    cases hline'

theorem hyphened_normalize (d : Dialect) (s : Style) (sql : Text) :
    Hyphened (normalize s (tokenize d sql)) where
  apart := apart_normalize d s sql
  lines := endsComments_normalize d s sql
  marks := fun _ ht hline => kind_of_hyphens_normalize ht hline
  last := last_normalize d s sql

end Tokens

/-! ## The walk meets its tokens -/

namespace Hyphened

variable {t : Token} {ns : List Token}

theorem tail (h : Hyphened (t :: ns)) : Hyphened ns where
  apart := h.apart.tail
  lines := h.lines.tail
  marks := fun x hx => h.marks x (List.mem_cons_of_mem t hx)
  last := fun x hx => h.last x (List.mem_getLast?_cons hx)

/-- A line comment that something follows is closed. -/
theorem isOpenComment_eq_false (h : Hyphened (t :: ns)) (hns : ns ≠ []) : isOpenComment t = false := by
  obtain ⟨a, as, rfl⟩ := List.exists_cons_of_ne_nil hns
  exact isOpenComment_eq_false_of_ends (List.isChain_cons_cons.mp h.lines).1

/-- Only line comments are taken for a delimiter that starts one. -/
theorem isLineComment_of_isDelimiter {s : Style} (hs : Dialect.isLineComment s.delimiter = true)
    (h : Hyphened ns) (ht : t ∈ ns) (hdelimiter : s.isDelimiter (Text.upper t.text) = true ∨
      s.isDelimiter t.text = true ∨ s.isDelimiter (settle t).text = true) : isLineComment t = true := by
  have hline : Dialect.isLineComment t.text = true := by
    rcases hdelimiter with hupper | htext | hsettle
    · exact isLineComment_of_upper ((Layout.isLineComment_of_isDelimiter hupper).trans hs)
    · exact (Layout.isLineComment_of_isDelimiter htext).trans hs
    · by_cases hline : Layout.isLineComment t = true
      · exact isLineComment_text hline
      · rw [settle, if_neg hline] at hsettle
        exact (Layout.isLineComment_of_isDelimiter hsettle).trans hs
  simp [Layout.isLineComment, hline, h.marks t ht hline]

theorem isDelimiter_eq_false {s : Style} (hs : Dialect.isLineComment s.delimiter = true)
    (h : Hyphened ns) (ht : t ∈ ns) (hkind : t.kind ≠ .comment) :
    s.isDelimiter (Text.upper t.text) = false ∧ s.isDelimiter t.text = false := by
  constructor
  · rw [Bool.eq_false_iff]
    exact fun hupper => hkind (kind_of_isLineComment (h.isLineComment_of_isDelimiter hs ht (.inl hupper)))
  · rw [Bool.eq_false_iff]
    exact fun htext =>
      hkind (kind_of_isLineComment (h.isLineComment_of_isDelimiter hs ht (.inr (.inl htext))))

end Hyphened

/-- `Awaits s ahead c ns`: with `ns` still to come and `ahead` in front of them, the walk has its cursor
at `c`. -/
inductive Awaits (s : Style) : Ahead → Cursor → List Token → Prop
  | done (ahead : Ahead) (front : List Token) : Awaits s ahead ⟨front, []⟩ []
  | plain (front ns : List Token) (closed : ∀ p ∈ front.head?, isOpenComment p = false) :
      Awaits s .plain ⟨front, ns⟩ ns
  | broken (front : List Token) (g x : Token) (rest : List Token) (space : g.isSpace = true)
      (visible : x.isSpace = false) (other : s.isDelimiter (settle x).text = false) :
      Awaits s .broken ⟨g :: front, settle x :: rest⟩ (x :: rest)
  | brokenSpace (front : List Token) (g : Token) (rest : List Token) (line : Text)
      (space : g.isSpace = true) (gap : Dialect.isLineComment line = false) :
      Awaits s .broken ⟨front, g.withText line :: rest⟩ (g :: rest)
  | passed (front : List Token) (x : Token) (rest : List Token) (offset : Nat)
      (delimiter : s.isDelimiter (settle x).text = true) :
      Awaits s .broken ⟨settle x :: front, afterDelimiter [' '] offset rest⟩ (x :: rest)
  | opened (p : Token) (front : List Token) (x : Token) (rest : List Token)
      (opened : isOpenComment p = true) (visible : x.isSpace = false) :
      Awaits s .opened ⟨p :: front, x :: rest⟩ (x :: rest)

/-- The walk is where the scan is. -/
structure Heeds (s : Style) (o : Outlook) (w : Walk) (ns : List Token) : Prop where
  awaits : Awaits s o.ahead w.cursor ns
  calls : w.calls = o.calls
  outside : o.ahead ≠ .plain → o.calls.any id = false
  previous : ∀ t ∈ ns.head?, t.isSymbol ['('] = true → w.previous = o.previous

section Steps

variable {d : Dialect} {s : Style} {o : Outlook} {w : Walk} {x : Token} {ns rest : List Token}

theorem isDelimiter_of_gap (hs : Dialect.isLineComment s.delimiter = true) {text : Text}
    (h : Dialect.isLineComment text = false) : s.isDelimiter (Text.upper text) = false := by
  cases hdelimiter : s.isDelimiter (Text.upper text) with
  | false => rfl
  | true =>
    rw [isLineComment_of_upper ((isLineComment_of_isDelimiter hdelimiter).trans hs)] at h
    cases h

/-- White space is passed by. -/
theorem visit_gap (hs : Dialect.isLineComment s.delimiter = true) {g : Token} {before : List Token}
    (hcursor : w.cursor = ⟨before, g :: rest⟩) (hg : g.isSpace = true)
    (hgap : Dialect.isLineComment g.text = false) :
    w.visit d s = some { w with cursor := ⟨g :: before, rest⟩, previous := g.text } := by
  have hafter : w.cursor.after = g :: rest := by rw [hcursor]
  have hkind : g.kind = .space := by simpa [Token.isSpace] using hg
  have hreact : w.react d s g = w := by
    simp [Walk.react, hkind, Walk.onWord, isDelimiter_of_gap hs hgap]
  unfold Walk.visit
  rw [closeLineComment_of_space hafter hg]
  simp only [hafter, hreact, Walk.leave]
  rw [hcursor]
  rfl

/-- Where the walk goes on behind a token that ends its line. -/
theorem awaits_breakNext (hs : Dialect.isLineComment s.delimiter = true) (hns : Hyphened rest)
    {x : Token} (hx : x.isSpace = false) (before : List Token) (level : Int) :
    Awaits s .broken ((⟨before, x :: rest⟩ : Cursor).breakNext s (s.lineBreak level)).advance rest := by
  cases rest with
  | nil => exact .done _ _
  | cons y ys =>
    simp only [Cursor.breakNext, isSpace_settle, hx]
    cases hy : y.isSpace with
    | true =>
      have hkind : y.kind = .space := by simpa [Token.isSpace] using hy
      have hline : breakText (s.lineBreak level) y = s.lineBreak level :=
        breakText_of_kind_ne (by simp [hkind])
      simp only [↓reduceIte, Cursor.advance, settle_of_isSpace hy, hline]
      exact .brokenSpace _ y ys _ hy rfl
    | false =>
      cases hdelimiter : s.isDelimiter (settle y).text with
      | true =>
        have hline := hns.isLineComment_of_isDelimiter hs (by simp) (.inr (.inr hdelimiter))
        simp only [↓reduceIte, Cursor.advance, Bool.false_eq_true, breakText, hline]
        exact .passed _ y ys _ hdelimiter
      | false =>
        simp only [Bool.false_eq_true, ↓reduceIte, Cursor.advance]
        exact .broken _ _ y ys rfl hy hdelimiter

/-- A break in front of a visible token that is neither a comment nor a delimiter keeps what is behind. -/
theorem exists_breakHere?_visible (hx : x.isSpace = false) {here : Option Int}
    (hword : here.isSome = true → x.kind ≠ .comment ∧ s.isDelimiter x.text = false)
    (before rest : List Token) :
    ∃ before', (⟨before, x :: rest⟩ : Cursor).breakHere? s here = ⟨before', x :: rest⟩ := by
  cases here with
  | none => exact ⟨before, rfl⟩
  | some level =>
    obtain ⟨hkind, hother⟩ := hword rfl
    cases before with
    | nil => exact ⟨[], by simp [Cursor.breakHere?, Cursor.breakHere, hx, hother]⟩
    | cons p ps =>
      cases hp : p.isSpace <;>
        simp [Cursor.breakHere?, Cursor.breakHere, settle_of_kind_ne hkind, hx, hother, hp]

/-- Where the walk goes on behind a token that it visits. -/
theorem Outlook.awaits_visit (hs : Dialect.isLineComment s.delimiter = true) (hns : Hyphened (x :: rest))
    {x' : Token} (hx : x'.isSpace = false) (hkind : x'.kind = x.kind)
    (hopen : rest ≠ [] → isOpenComment x' = true → o.calls.any id = false) (before : List Token)
    (level : Int) :
    Awaits s (o.visit d x').ahead
      ((⟨before, x' :: rest⟩ : Cursor).breakNext? s (endsLine x' && !(o.visit d x').calls.any id)
        level).advance rest := by
  have stays : (rest ≠ [] → isOpenComment x' = false) → Awaits s .plain ⟨x' :: before, rest⟩ rest := by
    intro hclosed
    by_cases hrest : rest = []
    · subst hrest
      exact .done _ _
    · exact .plain _ _ (by simpa using hclosed hrest)
  simp only [Outlook.visit]
  cases hany : (callsAfter o.calls (d.isFunction o.previous) x').any id with
  | true =>
    simp only [Bool.not_true, Bool.and_false, Cursor.breakNext?, Bool.false_eq_true, ↓reduceIte,
      Cursor.advance]
    refine stays fun hrest => ?_
    cases hopened : isOpenComment x' with
    | false => rfl
    | true =>
      have hcomment : x'.kind ≠ .symbol := by
        simp [kind_of_isOpenComment hopened]
      rw [callsAfter_of_kind_ne hcomment, hopen hrest hopened] at hany
      cases hany
  | false =>
    simp only [Bool.not_false, Bool.and_true, Bool.false_eq_true, ↓reduceIte]
    cases hends : endsLine x' with
    | true => simpa [Cursor.breakNext?] using awaits_breakNext hs hns.tail hx before level
    | false =>
      simp only [Cursor.breakNext?, Bool.false_eq_true, ↓reduceIte, Cursor.advance]
      cases hopened : isOpenComment x' with
      | false => exact stays fun _ => hopened
      | true =>
        simp only [↓reduceIte]
        cases rest with
        | nil => exact .done _ _
        | cons y ys =>
          refine .opened x' before y ys hopened ?_
          have hcomment : x.kind = .comment := by
            rw [← hkind, kind_of_isOpenComment hopened]
          cases hspace : y.isSpace with
          | false => rfl
          | true =>
            have habsorbs := ((List.isChain_cons_cons.mp hns.apart).1.2 hspace)
            simp [absorbsSpace, hcomment] at habsorbs

/-- A visit to a token, once the line comment before is closed. -/
theorem exists_visit_shown (hs : Dialect.isLineComment s.delimiter = true) (hns : Hyphened (x :: rest))
    (hx : x.isSpace = false) {x' : Token} {before : List Token}
    (hcursor : (w.closeLineComment s).cursor = ⟨before, x' :: rest⟩) (hshown : x' = x ∨ x' = settle x)
    (hcalls : (w.closeLineComment s).calls = o.calls)
    (hprevious : x.isSymbol ['('] = true → (w.closeLineComment s).previous = o.previous)
    (hopen : rest ≠ [] → isOpenComment x' = true → o.calls.any id = false) :
    ∃ w', w.visit d s = some w' ∧ Heeds s (o.visit d x') w' rest := by
  have hkind : x'.kind = x.kind := by
    rcases hshown with rfl | rfl
    · rfl
    · exact kind_settle x
  have hspace : x'.isSpace = false := by simpa [Token.isSpace, hkind] using hx
  have hsame : x'.kind ≠ .comment → x' = x := by
    intro hcomment
    rcases hshown with rfl | rfl
    · rfl
    · exact settle_of_kind_ne (hkind ▸ hcomment)
  have hother : x'.kind ≠ .comment →
      s.isDelimiter (Text.upper x'.text) = false ∧ s.isDelimiter x'.text = false := by
    intro hcomment
    rw [hsame hcomment]
    exact hns.isDelimiter_eq_false hs (by simp) (hkind ▸ hcomment)
  have hreacts : Reacts d s (w.closeLineComment s) x' ((w.closeLineComment s).react d s x') :=
    reacts_react hspace fun hcomment => (hother hcomment).1
  have hafter : (w.closeLineComment s).cursor.after = x' :: rest := by rw [hcursor]
  have hcalls' : ((w.closeLineComment s).react d s x').calls = (o.visit d x').calls := by
    rw [hreacts.calls, hcalls]
    cases hbracket : x'.isSymbol ['('] with
    | true =>
      have hsymbol : x' = x := hsame (by simp [kind_of_isSymbol hbracket])
      rw [hprevious (hsymbol ▸ hbracket)]
      rfl
    | false => simp [Outlook.visit, callsAfter, hbracket]
  obtain ⟨here, level, hreact, hhere⟩ := hreacts.cursor
  obtain ⟨before', hbefore⟩ := exists_breakHere?_visible hspace
    (fun h => ⟨(hhere h).1, (hother (hhere h).1).2⟩) before rest
  rw [hcursor, hcalls', hbefore] at hreact
  refine ⟨((w.closeLineComment s).react d s x').leave x'.text, by simp only [Walk.visit, hafter], ?_⟩
  refine ⟨?_, hcalls', ?_, fun _ _ _ => rfl⟩
  · have hawaits := Outlook.awaits_visit (d := d) hs hns hspace hkind hopen before' level
    simpa [Walk.leave, hreact] using hawaits
  · intro hahead
    by_contra hany
    rw [Bool.not_eq_false] at hany
    simp only [Outlook.visit] at hahead hany
    simp [hany] at hahead

/-- A delimiter has no line feed at its end. -/
theorem endsWith_of_isDelimiter {text : Text} (h : s.isDelimiter text = true) :
    Text.endsWith text '\n' = false := by
  have hlower : Text.asciiLower text = Text.asciiLower s.delimiter := by
    simpa [Style.isDelimiter, Text.sameAsciiCase] using h
  have htrimmed : Text.trimEnd s.delimiter = s.delimiter := by
    rw [← s.delimiter_trimmed, Text.trim, Text.trimEnd_trimEnd]
  have hclosed := endsWith_trimEnd (Text.asciiLower s.delimiter)
  rw [Text.trimEnd_asciiLower, htrimmed, ← hlower] at hclosed
  rw [Bool.eq_false_iff] at hclosed ⊢
  intro hfeed
  have hlast : text.getLast? = some '\n' := by simpa [Text.endsWith] using hfeed
  exact hclosed (by simp [Text.endsWith, Text.asciiLower, hlast])

/-- A line comment that is the delimiter as it stands is the last token. -/
theorem rest_eq_nil_of_isDelimiter (hs : Dialect.isLineComment s.delimiter = true)
    (hns : Hyphened (x :: rest)) (hdelimiter : s.isDelimiter x.text = true) : rest = [] := by
  cases rest with
  | nil => rfl
  | cons y ys =>
    have hline := hns.isLineComment_of_isDelimiter hs (by simp) (.inr (.inl hdelimiter))
    have hfeed := (List.isChain_cons_cons.mp hns.lines).1 hline
    rw [endsWith_of_isDelimiter hdelimiter] at hfeed
    cases hfeed

theorem visible_space {g : Token} (hg : g.isSpace = true) (ns : List Token) :
    Token.visible (g :: ns) = Token.visible ns := by
  simp [Token.visible, hg]

theorem overruns_visible (hx : x.isSpace = false) (ns : List Token)
    (h : (o.ahead == .opened && (Token.visible ns).isEmpty && !s.isDelimiter x.text &&
      s.isDelimiter (settle x).text) = false) :
    overruns d s o (Token.visible (x :: ns)) = overruns d s (o.next d s x) (Token.visible ns) := by
  have hvisible : Token.visible (x :: ns) = x :: Token.visible ns := by simp [Token.visible, hx]
  rw [hvisible, overruns, h, Bool.false_or]

/-- What a visit makes of the walk and of what is still to come. -/
structure Heeded (d : Dialect) (s : Style) (o : Outlook) (w : Walk) (ns : List Token) (w' : Walk)
    (o' : Outlook) (ns' : List Token) : Prop where
  visit : w.visit d s = some w'
  heeds : Heeds s o' w' ns'
  hyphened : Hyphened ns'
  overruns : overruns d s o' (Token.visible ns') = overruns d s o (Token.visible ns)

/-- A token that is not passed over is visited. -/
theorem exists_heeded_shown (hs : Dialect.isLineComment s.delimiter = true) (hns : Hyphened (x :: rest))
    (hx : x.isSpace = false) (hpasses : o.passes s x = false) {before : List Token}
    (hcursor : (w.closeLineComment s).cursor = ⟨before, o.shown x :: rest⟩)
    (hcalls : (w.closeLineComment s).calls = o.calls)
    (hprevious : x.isSymbol ['('] = true → (w.closeLineComment s).previous = o.previous)
    (hopen : rest ≠ [] → isOpenComment (o.shown x) = true → o.calls.any id = false) :
    ∃ w' o' ns', Heeded d s o w (x :: rest) w' o' ns' := by
  have hshown : o.shown x = x ∨ o.shown x = settle x := by
    rw [Outlook.shown]
    split
    · exact .inl rfl
    · exact .inr rfl
  obtain ⟨w', hvisit, hheeds⟩ := exists_visit_shown (d := d) hs hns hx hcursor hshown hcalls hprevious hopen
  refine ⟨w', _, rest, hvisit, hheeds, hns.tail, ?_⟩
  rw [overruns_visible hx rest ?_, Outlook.next, hpasses, if_neg Bool.false_ne_true]
  cases hahead : o.ahead with
  | plain | broken => simp
  | opened =>
    have hother : s.isDelimiter (settle x).text = false := by simpa [Outlook.passes, hahead] using hpasses
    simp [hother]

/-- Behind a gap that a break has rewritten stands neither a comment nor a delimiter. -/
theorem Hyphened.awaits_gap (hs : Dialect.isLineComment s.delimiter = true) {g : Token}
    (hns : Hyphened (g :: rest)) (space : g.isSpace = true) (front : List Token) (line : Text) :
    Awaits s .broken ⟨g.withText line :: front, rest⟩ rest := by
  cases rest with
  | nil => exact .done _ _
  | cons y ys =>
    obtain ⟨hvisible, hword⟩ := (List.isChain_cons_cons.mp hns.apart).1.1 space
    have hcomment : y.kind ≠ .comment := by
      intro hkind
      simp [absorbsSpace, hkind] at hword
    have hsettle : settle y = y := settle_of_kind_ne hcomment
    have hother : s.isDelimiter (settle y).text = false := by
      rw [hsettle]
      exact (hns.tail.isDelimiter_eq_false hs (by simp) hcomment).2
    have hbroken := Awaits.broken front (g.withText line) y ys space hvisible hother
    rwa [hsettle] at hbroken

/-- White space that the walk has in front of a token is passed by. -/
theorem exists_heeded_gap (hs : Dialect.isLineComment s.delimiter = true) {g g' : Token}
    (hns : Hyphened (g :: rest)) (h : Heeds s o w (g :: rest)) {front : List Token}
    (hcursor : w.cursor = ⟨front, g' :: rest⟩) (hg : g.isSpace = true) (hg' : g'.isSpace = true)
    (hgap : Dialect.isLineComment g'.text = false)
    (hawaits : Awaits s o.ahead ⟨g' :: front, rest⟩ rest) :
    ∃ w' o' ns', Heeded d s o w (g :: rest) w' o' ns' := by
  refine ⟨_, o, rest, visit_gap hs hcursor hg' hgap, ⟨hawaits, h.calls, h.outside, ?_⟩, hns.tail,
    by rw [visible_space hg]⟩
  intro t ht hbracket
  have hword := ((List.isChain_cons.mp hns.apart).1 t ht).1 hg
  simp [absorbsSpace, kind_of_isSymbol hbracket] at hword

/-- No white space follows a comment. -/
theorem Hyphened.visible_of_comment (hns : Hyphened (x :: rest)) (hx : isLineComment x = true) :
    ∀ y ∈ rest.head?, y.isSpace = false := by
  intro y hy
  cases hspace : y.isSpace with
  | false => rfl
  | true =>
    have habsorbs := ((List.isChain_cons.mp hns.apart).1 y hy).2 hspace
    simp [absorbsSpace, kind_of_isLineComment hx] at habsorbs

/-- Behind a delimiter that was passed over two blanks are visited. -/
theorem exists_heeded_passed (hs : Dialect.isLineComment s.delimiter = true) (hns : Hyphened (x :: rest))
    (hx : x.isSpace = false) (hdelimiter : s.isDelimiter (settle x).text = true) (hahead : o.ahead ≠ .plain)
    {front : List Token} {offset : Nat}
    (hcursor : (w.closeLineComment s).cursor = ⟨front, afterDelimiter [' '] offset rest⟩)
    (hcalls : (w.closeLineComment s).calls = o.calls) (hrest : rest ≠ []) :
    ∃ w' o' ns', Heeded d s o w (x :: rest) w' o' ns' := by
  have hline := hns.isLineComment_of_isDelimiter hs (by simp) (.inr (.inr hdelimiter))
  have hblanks : (w.closeLineComment s).cursor = ⟨front, Token.space [' ', ' '] offset :: rest⟩ := by
    simpa [afterDelimiter, hrest] using hcursor
  -- closing a line comment once more changes nothing in front of white space
  have hvisit : w.visit d s = (w.closeLineComment s).visit d s := by
    have hclosed : (w.closeLineComment s).closeLineComment s = w.closeLineComment s :=
      closeLineComment_of_space (by rw [hblanks]) rfl
    unfold Walk.visit
    rw [hclosed]
  refine ⟨_, o.pass, rest, hvisit.trans (visit_gap hs hblanks rfl rfl), ?_, hns.tail, ?_⟩
  · exact ⟨.plain _ _ (by simp [isOpenComment_of_isSpace, Token.space, Token.isSpace]), hcalls,
      fun hplain => absurd rfl hplain, fun _ _ _ => rfl⟩
  · obtain ⟨y, ys, rfl⟩ := List.exists_cons_of_ne_nil hrest
    have hy := hns.visible_of_comment hline y rfl
    rw [overruns_visible hx (y :: ys) (by simp [Token.visible, hy])]
    simp [Outlook.next, Outlook.passes, hahead, hdelimiter]

/-- A token that comes behind a line comment without its line feed. -/
theorem exists_heeded_opened (hs : Dialect.isLineComment s.delimiter = true) (hns : Hyphened (x :: rest))
    (h : Heeds s o w (x :: rest)) (hahead : o.ahead = .opened) {p : Token} {front : List Token}
    (hcursor : w.cursor = ⟨p :: front, x :: rest⟩) (hopened : isOpenComment p = true)
    (hx : x.isSpace = false) :
    (w.visit d s = none ∧ overruns d s o (Token.visible (x :: rest)) = true) ∨
      ∃ w' o' ns', Heeded d s o w (x :: rest) w' o' ns' := by
  have houtside : o.calls.any id = false := h.outside (by simp [hahead])
  have hcall : w.inCall = false := by rw [Walk.inCall_eq, h.calls, houtside]
  cases hdelimiter : s.isDelimiter x.text with
  | true =>
    obtain rfl := rest_eq_nil_of_isDelimiter hs hns hdelimiter
    have hclosed : w.closeLineComment s = w := by
      simp [Walk.closeLineComment, followsOpenLineComment_eq hcursor, hdelimiter]
    have hcursor' : (w.closeLineComment s).cursor = ⟨p :: front, [x]⟩ := by rw [hclosed, hcursor]
    obtain ⟨w', hvisit, hheeds⟩ := exists_visit_shown (d := d) (o := o) hs hns hx hcursor' (.inl rfl)
      (by rw [hclosed, h.calls]) (fun hbracket => by rw [hclosed, h.previous x rfl hbracket])
      (fun _ _ => houtside)
    refine .inr ⟨w', _, [], hvisit, hheeds, hns.tail, ?_⟩
    rw [overruns_visible hx [] (by simp [hdelimiter])]
    rfl
  | false =>
    cases hsettled : s.isDelimiter (settle x).text with
    | true =>
      have hline := hns.isLineComment_of_isDelimiter hs (by simp) (.inr (.inr hsettled))
      have hclosed : w.closeLineComment s = w.breakHere s w.level := by
        simp [Walk.closeLineComment, followsOpenLineComment_eq hcursor, hopened, hx, hdelimiter]
      have hpassed : (w.closeLineComment s).cursor =
          ⟨settle x :: p :: front, afterDelimiter [' '] (settle x).offset rest⟩ := by
        rw [hclosed, Walk.breakHere, hcall]
        simp [hcursor, Cursor.breakHere, isSpace_settle, hx, hsettled, breakText, hline]
      by_cases hrest : rest = []
      · subst hrest
        refine .inl ⟨?_, ?_⟩
        · simp [Walk.visit, hpassed, afterDelimiter]
        · have hvisible : Token.visible [x] = [x] := by simp [Token.visible, hx]
          simp [hvisible, overruns, hahead, hdelimiter, hsettled]
      · exact .inr (exists_heeded_passed hs hns hx hsettled (by simp [hahead]) hpassed
          (by rw [hclosed, Walk.calls_breakHere, h.calls]) hrest)
    | false =>
      have hclosed := closeLineComment_of_open hcursor hopened hcall hx hdelimiter hsettled
      have hcursor' : (w.closeLineComment s).cursor =
          ⟨Token.space (breakText (s.lineBreak w.level) x) (settle x).offset :: p :: front,
            o.shown x :: rest⟩ := by
        rw [hclosed]
        simp [Outlook.shown, hahead]
      refine .inr (exists_heeded_shown hs hns hx (by simp [Outlook.passes, hsettled]) hcursor' ?_ ?_
        fun _ _ => houtside)
      · rw [hclosed]
        exact h.calls
      · intro hbracket
        rw [hclosed]
        exact h.previous x rfl hbracket

/-- A visit has a result, unless the walk runs past the end. -/
theorem exists_heeded (hs : Dialect.isLineComment s.delimiter = true) (hns : Hyphened ns)
    (h : Heeds s o w ns) (hafter : w.cursor.after ≠ []) :
    (w.visit d s = none ∧ overruns d s o (Token.visible ns) = true) ∨
      ∃ w' o' ns', Heeded d s o w ns w' o' ns' := by
  have hawaits := h.awaits
  generalize hahead : o.ahead = ahead at hawaits
  generalize hcursor : w.cursor = c at hawaits hafter
  cases hawaits with
  | done => exact absurd rfl hafter
  | plain front ns closed =>
    obtain ⟨t, rest, rfl⟩ := List.exists_cons_of_ne_nil hafter
    cases hspace : t.isSpace with
    | true =>
      have hkind : t.kind = .space := by simpa [Token.isSpace] using hspace
      have hgap : Dialect.isLineComment t.text = false := by
        rw [Bool.eq_false_iff]
        intro hline
        simp [hns.marks t (by simp) hline] at hkind
      refine .inr (exists_heeded_gap hs hns h hcursor hspace hspace hgap ?_)
      rw [hahead]
      exact .plain _ _ (by simpa using isOpenComment_of_isSpace hspace)
    | false =>
      have hclosed : w.closeLineComment s = w := closeLineComment_of_closed hcursor closed
      have hcursor' : (w.closeLineComment s).cursor = ⟨front, t :: rest⟩ := by rw [hclosed, hcursor]
      have hshown : o.shown t = t := by simp [Outlook.shown, hahead]
      refine .inr (exists_heeded_shown hs hns hspace (by simp [Outlook.passes, hahead])
        (hshown.symm ▸ hcursor') (by rw [hclosed, h.calls])
        (fun hbracket => by rw [hclosed, h.previous t rfl hbracket]) fun hrest hopened => ?_)
      rw [hshown, hns.isOpenComment_eq_false hrest] at hopened
      cases hopened
  | broken front g x rest space visible other =>
    have hclosed : w.closeLineComment s = w :=
      closeLineComment_of_closed hcursor (by simpa using isOpenComment_of_isSpace space)
    have hcursor' : (w.closeLineComment s).cursor = ⟨g :: front, settle x :: rest⟩ := by rw [hclosed, hcursor]
    have hshown : o.shown x = settle x := by simp [Outlook.shown, hahead]
    exact .inr (exists_heeded_shown hs hns visible (by simp [Outlook.passes, other])
      (hshown.symm ▸ hcursor') (by rw [hclosed, h.calls])
      (fun hbracket => by rw [hclosed, h.previous x rfl hbracket])
      (fun _ _ => h.outside (by simp [hahead])))
  | brokenSpace front g rest line space gap =>
    refine .inr (exists_heeded_gap hs hns h hcursor space space gap ?_)
    rw [hahead]
    exact hns.awaits_gap hs space front line
  | passed front x rest offset delimiter =>
    have hline := hns.isLineComment_of_isDelimiter hs (by simp) (.inr (.inr delimiter))
    have hrest : rest ≠ [] := by
      rintro rfl
      exact hafter rfl
    have hspaced : w.cursor.after = Token.space [' ', ' '] offset :: rest := by
      simp [hcursor, afterDelimiter, hrest]
    have hclosed : w.closeLineComment s = w := closeLineComment_of_space hspaced rfl
    have hpassed : (w.closeLineComment s).cursor = ⟨settle x :: front, afterDelimiter [' '] offset rest⟩ := by
      rw [hclosed, hcursor]
    have hx : x.isSpace = false := by
      simp [Token.isSpace, kind_of_isLineComment hline]
    exact .inr (exists_heeded_passed hs hns hx delimiter (by simp [hahead]) hpassed
      (by rw [hclosed, h.calls]) hrest)
  | opened p front x rest opened visible => exact exists_heeded_opened hs hns h hahead hcursor opened visible

/-- When the walk is at its end, so is the scan. -/
theorem overruns_of_done (h : Heeds s o w ns) (hdone : w.cursor.after = []) :
    overruns d s o (Token.visible ns) = false := by
  have hawaits := h.awaits
  generalize hahead : o.ahead = ahead at hawaits
  generalize w.cursor = c at hawaits hdone
  cases hawaits with
  | done => rfl
  | plain front ns closed =>
    obtain rfl : ns = [] := hdone
    rfl
  | broken | brokenSpace | opened => cases hdone
  | passed front x rest offset delimiter =>
    obtain rfl : rest = [] := by
      by_contra hrest
      simp [afterDelimiter, hrest] at hdone
    cases hx : x.isSpace with
    | true =>
      rw [visible_space hx]
      rfl
    | false =>
      rw [overruns_visible hx [] (by simp [hahead])]
      rfl

/-- A run has no result exactly when the scan says that it runs past the end. -/
theorem run_eq_none_iff (hs : Dialect.isLineComment s.delimiter = true) (hns : Hyphened ns)
    (h : Heeds s o w ns) : w.run d s = none ↔ overruns d s o (Token.visible ns) = true := by
  fun_induction Walk.run d s w generalizing o ns with
  | case1 w hdone => simp [overruns_of_done h (by simpa using hdone)]
  | case2 w hmore hvisit =>
    rcases exists_heeded (d := d) hs hns h (by simpa using hmore) with ⟨-, hoverruns⟩ | ⟨w', o', ns', hheeded⟩
    · simpa using hoverruns
    · have hsome := hheeded.visit
      rw [hvisit] at hsome
      cases hsome
  | case3 w hmore w' hvisit ih =>
    rcases exists_heeded (d := d) hs hns h (by simpa using hmore) with ⟨hnone, -⟩ | ⟨v, o', ns', hheeded⟩
    · rw [hvisit] at hnone
      cases hnone
    · obtain rfl : w' = v := Option.some.inj (hvisit.symm.trans hheeded.visit)
      rw [ih hheeded.hyphened hheeded.heeds, hheeded.overruns]

end Steps

/-! ## Texts without a layout -/

/-- Only where trimming makes a delimiter of a comment does the walk run past the end. -/
theorem overruns_of_delimiter {d : Dialect} {s : Style} (hs : Dialect.isLineComment s.delimiter = false)
    (o : Outlook) (ts : List Token) : overruns d s o ts = false := by
  induction ts generalizing o with
  | nil => rfl
  | cons t ts ih =>
    rw [overruns, ih, Bool.or_false]
    cases hdelimiter : s.isDelimiter t.text with
    | true => simp
    | false => simp [isDelimiter_settle_eq_false hs hdelimiter]

theorem format_eq_none_iff_run {d : Dialect} {s : Style} {sql : Text} :
    format d s sql = none ↔ (Walk.start (normalize s (tokenize d sql))).run d s = none := by
  simp [format, arrange, breakLines]

/-- A text has no layout exactly when the scan over its tokens says that the walk runs past the end. -/
theorem format_eq_none_iff (d : Dialect) (s : Style) (sql : Text) :
    format d s sql = none ↔
      overruns d s .start (Token.visible (normalize s (tokenize d sql))) = true := by
  cases hs : Dialect.isLineComment s.delimiter with
  | false =>
    obtain ⟨out, hout⟩ := exists_format d hs sql
    simp [hout, overruns_of_delimiter hs]
  | true =>
    rw [format_eq_none_iff_run]
    exact run_eq_none_iff hs (hyphened_normalize d s sql)
      ⟨.plain [] _ (by simp), rfl, fun hahead => absurd rfl hahead, fun _ _ _ => rfl⟩

end SqlLayout.Layout

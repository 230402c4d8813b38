import SqlLayout.Proofs.Layout.Legible
import SqlLayout.Proofs.Layout.TwinPasses
import SqlLayout.Proofs.Token.Reread

/-!
# One plan for two styles

A layout writes a plan: the tokens of the text in order and, between them, line feeds, levels of
indentation and blanks.  The keyword case and the indentation of a style say how the plan is written
and have no part in it (`onePlan`), as long as the keywords are ASCII and the empty line behind a
delimiter is a function word in both styles or in none.
-/

namespace SqlLayout.Layout

/-! ## Plans -/

/-- What a layout is made of. -/
inductive PlanItem where
  | feed
  /-- One level of indentation. -/
  | indent
  | blank
  | token (t : Token)

namespace PlanItem

/-- An item as a style writes it. -/
def write (s : Style) : PlanItem → Text
  | feed => ['\n']
  | indent => s.indentUnit
  | blank => [' ']
  | token t => (recase s t).text

/-- The token of an item, if it is one. -/
def token? : PlanItem → Option Token
  | token t => some t
  | feed | indent | blank => none

/-- Whether the item is a line feed. -/
def isFeed : PlanItem → Bool
  | feed => true
  | indent | blank | token _ => false

end PlanItem

/-- A plan as a style writes it. -/
def writePlan (s : Style) (plan : List PlanItem) : Text := plan.flatMap (·.write s)

/-- The tokens of a plan, in order. -/
def planTokens (plan : List PlanItem) : List Token := plan.filterMap PlanItem.token?

/-- Two styles lay a text out by one plan, which has the tokens of the text in order, each as it was
read or without the white space at the end of a line comment; or they have no layout for it. -/
inductive OnePlan (d : Dialect) (s s' : Style) (sql : Text) : Prop
  | none (left : format d s sql = Option.none) (right : format d s' sql = Option.none)
  | some (plan : List PlanItem)
      (tokens : List.Forall₂ Settles (Token.visible (tokenize d sql)) (planTokens plan))
      (left : format d s sql = Option.some (writePlan s plan))
      (right : format d s' sql = Option.some (writePlan s' plan))

theorem writePlan_append (s : Style) (a b : List PlanItem) :
    writePlan s (a ++ b) = writePlan s a ++ writePlan s b := by
  simp [writePlan]

theorem writePlan_cons (s : Style) (item : PlanItem) (plan : List PlanItem) :
    writePlan s (item :: plan) = item.write s ++ writePlan s plan := rfl

@[simp] theorem planTokens_nil : planTokens [] = [] := rfl

@[simp] theorem planTokens_token (t : Token) (plan : List PlanItem) :
    planTokens (.token t :: plan) = t :: planTokens plan := rfl

@[simp] theorem planTokens_feed (plan : List PlanItem) :
    planTokens (.feed :: plan) = planTokens plan := rfl

@[simp] theorem planTokens_indent (plan : List PlanItem) :
    planTokens (.indent :: plan) = planTokens plan := rfl

@[simp] theorem planTokens_blank (plan : List PlanItem) :
    planTokens (.blank :: plan) = planTokens plan := rfl

theorem planTokens_append (a b : List PlanItem) :
    planTokens (a ++ b) = planTokens a ++ planTokens b := by
  simp [planTokens]

/-- The plan of a gap. -/
def Gap.plan : Gap → List PlanItem
  | .blank => [.blank]
  | .line level => .feed :: List.replicate level.toNat .indent
  | .twice g => g.plan ++ g.plan

theorem Gap.writePlan_plan (s : Style) (g : Gap) : writePlan s g.plan = g.write s := by
  induction g with
  | blank => rfl
  | line level =>
    show '\n' :: (List.replicate level.toNat PlanItem.indent).flatMap (·.write s) = s.lineBreak level
    rw [List.flatMap_replicate]
    rfl
  | twice g ih => rw [plan, writePlan_append, ih, write]

theorem Gap.planTokens_plan (g : Gap) : planTokens g.plan = [] := by
  induction g with
  | blank => rfl
  | line level =>
    show (List.replicate level.toNat PlanItem.indent).filterMap PlanItem.token? = []
    simp [PlanItem.token?]
  | twice g ih => rw [plan, planTokens_append, ih, List.append_nil]

/-! ## Plans of twins -/

variable {d : Dialect} {s s' : Style}

/-- Both tokens of a twin are written by one plan.  White space plans no token, and a comment plans
itself only, so that trimming it trims the token of the plan. -/
structure Spelt (s s' : Style) (z : Twin) (plan : List PlanItem) : Prop where
  kind : z.right.kind = z.left.kind
  left : z.left.text = writePlan s plan
  right : z.right.text = writePlan s' plan
  space : z.left.isSpace = true → planTokens plan = []
  comment : z.left.kind = .comment → ∃ t : Token, t.kind = .comment ∧ plan = [.token t]

/-- The plan of a list of twins. -/
inductive Planned (s s' : Style) : List Twin → List PlanItem → Prop
  | nil : Planned s s' [] []
  | cons {z : Twin} {zs : List Twin} {p plan : List PlanItem} (spelt : Spelt s s' z p)
      (rest : Planned s s' zs plan) : Planned s s' (z :: zs) (p ++ plan)

theorem spelt_gap (z : Twin) (g : Gap) (hkind : z.right.kind = z.left.kind)
    (hspace : z.left.isSpace = true) (hleft : z.left.text = g.write s)
    (hright : z.right.text = g.write s') : Spelt s s' z g.plan where
  kind := hkind
  left := hleft.trans (g.writePlan_plan s).symm
  right := hright.trans (g.writePlan_plan s').symm
  space _ := g.planTokens_plan
  comment h := by simp [Token.isSpace, h] at hspace

/-- Tokens of one class and text are trimmed alike. -/
theorem settle_text_congr {x t : Token} (hkind : x.kind = t.kind) (htext : x.text = t.text) :
    (settle x).text = (settle t).text := by
  have hline : isLineComment x = isLineComment t := by
    rw [isLineComment, isLineComment, hkind, htext]
  rw [settle, settle, hline]
  split
  · exact congrArg Text.trimEnd htext
  · exact htext

theorem writePlan_comment (s : Style) {t : Token} (h : t.kind = .comment) :
    writePlan s [.token t] = t.text := by
  simp [writePlan, PlanItem.write, recase_of_kind_ne s (show t.kind ≠ .keyword by simp [h])]

/-- Trimming a comment trims the token of its plan. -/
theorem Spelt.settle {z : Twin} {p : List PlanItem} (h : Spelt s s' z p) :
    ∃ p', Spelt s s' z.settle p' ∧ List.Forall₂ Settles (planTokens p) (planTokens p') := by
  by_cases hcomment : z.left.kind = .comment
  · obtain ⟨t, hkind, rfl⟩ := h.comment hcomment
    have hkind' : (Layout.settle t).kind = .comment := (kind_settle t).trans hkind
    have hleft : z.left.text = t.text := h.left.trans (writePlan_comment s hkind)
    have hright : z.right.text = t.text := h.right.trans (writePlan_comment s' hkind)
    refine ⟨[.token (Layout.settle t)], ⟨?_, ?_, ?_, ?_, ?_⟩, .cons (.inr rfl) .nil⟩
    · simp [Twin.settle, kind_settle, h.kind]
    · rw [writePlan_comment s hkind']
      exact settle_text_congr (hcomment.trans hkind.symm) hleft
    · rw [writePlan_comment s' hkind']
      exact settle_text_congr ((h.kind.trans hcomment).trans hkind.symm) hright
    · intro hspace
      simp [Twin.settle, Token.isSpace, kind_settle, hcomment] at hspace
    · exact fun _ => ⟨Layout.settle t, hkind', rfl⟩
  · have hsame : z.settle = z := by
      have hright : z.right.kind ≠ .comment := by rwa [h.kind]
      simp [Twin.settle, settle_of_kind_ne hcomment, settle_of_kind_ne hright]
    rw [hsame]
    exact ⟨p, h, forall₂_settles_refl _⟩

namespace Planned

theorem append {l r : List Twin} {pl pr : List PlanItem} (hl : Planned s s' l pl)
    (hr : Planned s s' r pr) : Planned s s' (l ++ r) (pl ++ pr) := by
  induction hl with
  | nil => exact hr
  | cons spelt rest ih =>
    rw [List.cons_append, List.append_assoc]
    exact .cons spelt ih

theorem exists_cons {z : Twin} {zs : List Twin} {plan : List PlanItem}
    (h : Planned s s' (z :: zs) plan) :
    ∃ p rest, plan = p ++ rest ∧ Spelt s s' z p ∧ Planned s s' zs rest := by
  cases h with
  | cons spelt rest => exact ⟨_, _, rfl, spelt, rest⟩

theorem exists_append {l r : List Twin} {plan : List PlanItem} (h : Planned s s' (l ++ r) plan) :
    ∃ pl pr, plan = pl ++ pr ∧ Planned s s' l pl ∧ Planned s s' r pr := by
  induction l generalizing plan with
  | nil => exact ⟨[], plan, rfl, .nil, h⟩
  | cons z l ih =>
    obtain ⟨p, rest, rfl, hspelt, hrest⟩ := h.exists_cons
    obtain ⟨pl, pr, rfl, hl, hr⟩ := ih hrest
    exact ⟨p ++ pl, pr, (List.append_assoc p pl pr).symm, .cons hspelt hl, hr⟩

/-- The texts of twins are their plan, written. -/
theorem concat {zs : List Twin} {plan : List PlanItem} (h : Planned s s' zs plan) :
    Token.concat (zs.map Twin.left) = writePlan s plan ∧
      Token.concat (zs.map Twin.right) = writePlan s' plan := by
  induction h with
  | nil => exact ⟨rfl, rfl⟩
  | cons spelt rest ih =>
    rw [concat_map_cons, concat_map_cons, writePlan_append, writePlan_append, spelt.left, spelt.right,
      ih.1, ih.2]
    exact ⟨rfl, rfl⟩

/-- An edit of twins changes their plan, and of its tokens no more than the end of a comment. -/
theorem edit {a b : List Twin} (hedit : TwinEdit s s' a b) {plan : List PlanItem}
    (h : Planned s s' a plan) :
    ∃ plan', Planned s s' b plan' ∧ List.Forall₂ Settles (planTokens plan) (planTokens plan') := by
  cases hedit with
  | retext l r z g space =>
    obtain ⟨pl, rest, rfl, hl, hrest⟩ := h.exists_append
    obtain ⟨p, pr, rfl, hz, hr⟩ := hrest.exists_cons
    refine ⟨pl ++ (g.plan ++ pr), hl.append (.cons (spelt_gap _ g hz.kind space rfl rfl) hr), ?_⟩
    simp only [planTokens_append, hz.space space, g.planTokens_plan]
    exact forall₂_settles_refl _
  | insert l r z g =>
    obtain ⟨pl, pr, rfl, hl, hr⟩ := h.exists_append
    refine ⟨pl ++ (g.plan ++ pr), hl.append (.cons (spelt_gap _ g rfl rfl rfl rfl) hr), ?_⟩
    simp only [planTokens_append, g.planTokens_plan, List.nil_append]
    exact forall₂_settles_refl _
  | settle l r z =>
    obtain ⟨pl, rest, rfl, hl, hrest⟩ := h.exists_append
    obtain ⟨p, pr, rfl, hz, hr⟩ := hrest.exists_cons
    obtain ⟨p', hspelt, hsettles⟩ := hz.settle
    refine ⟨pl ++ (p' ++ pr), hl.append (.cons hspelt hr), ?_⟩
    simp only [planTokens_append]
    exact List.rel_append (forall₂_settles_refl _) (List.rel_append hsettles (forall₂_settles_refl _))
  | drop l r z space =>
    obtain ⟨pl, rest, rfl, hl, hrest⟩ := h.exists_append
    obtain ⟨p, pr, rfl, hz, hr⟩ := hrest.exists_cons
    refine ⟨pl ++ pr, hl.append hr, ?_⟩
    simp only [planTokens_append, hz.space space, List.nil_append]
    exact forall₂_settles_refl _
  | join l r z zs visible plain =>
    obtain ⟨pl, rest, rfl, hl, hrest⟩ := h.exists_append
    obtain ⟨p, rest, rfl, hz, hrest⟩ := hrest.exists_cons
    obtain ⟨pz, pr, rfl, hzs, hr⟩ := hrest.exists_append
    have hconcat := (Planned.cons hz hzs).concat
    have hspelt : Spelt s s' (z.join zs) (p ++ pz) := by
      refine ⟨hz.kind, hconcat.1, hconcat.2, fun hspace => ?_, fun hcomment => absurd hcomment plain⟩
      have hsame : (z.join zs).left.isSpace = z.left.isSpace := rfl
      rw [hsame, visible] at hspace
      cases hspace
    refine ⟨pl ++ (p ++ pz ++ pr), hl.append (.cons hspelt hr), ?_⟩
    rw [List.append_assoc]
    exact forall₂_settles_refl _

theorem edits {a b : List Twin} (hedits : TwinEdits s s' a b) {plan : List PlanItem}
    (h : Planned s s' a plan) :
    ∃ plan', Planned s s' b plan' ∧ List.Forall₂ Settles (planTokens plan) (planTokens plan') := by
  induction hedits with
  | refl => exact ⟨plan, h, forall₂_settles_refl _⟩
  | tail _ hedit ih =>
    obtain ⟨plan', hplan', hsettles⟩ := ih
    obtain ⟨plan'', hplan'', hsettles'⟩ := hplan'.edit hedit
    exact ⟨plan'', hplan'', forall₂_settles_trans hsettles hsettles'⟩

end Planned

/-! ## Two styles -/

theorem visible_collapseAfter (absorbed : Bool) (ts : List Token) :
    Token.visible (collapseAfter absorbed ts) = Token.visible ts := by
  fun_induction collapseAfter absorbed ts with
  | case1 => rfl
  | case2 absorbed t ts hspace habsorbed ih => rw [visible_cons_space hspace, ih]
  | case3 absorbed t ts hspace habsorbed ih =>
    rw [visible_cons_space hspace, visible_cons_space (t := t.withText [' ']) hspace, ih]
  | case4 absorbed t ts hspace ih =>
    have hvisible : t.isSpace = false := by simpa using hspace
    rw [visible_cons hvisible, visible_cons hvisible, ih]

theorem visible_reduced (d : Dialect) (sql : Text) :
    Token.visible (reduced d sql) = Token.visible (tokenize d sql) :=
  (visible_collapseAfter false _).trans (visible_trimEdges _)

/-- The item that stands for a token whose white space is reduced. -/
def planItem (t : Token) : PlanItem := if t.isSpace then .blank else .token t

theorem planTokens_map_planItem (ts : List Token) :
    planTokens (ts.map planItem) = Token.visible ts := by
  induction ts with
  | nil => rfl
  | cons t ts ih =>
    rw [List.map_cons]
    cases hspace : t.isSpace with
    | true => simp [visible_cons_space hspace, planItem, hspace, ih]
    | false => simp [visible_cons hspace, planItem, hspace, ih]

/-- The tokens of one text, the same for both runs. -/
def twice (t : Token) : Twin := ⟨t, t⟩

theorem planned_twice {ts : List Token} (h : ∀ t ∈ ts, t.isSpace = true → t.text = [' ']) :
    Planned s s' ((ts.map twice).map (Twin.recase s s')) (ts.map planItem) := by
  induction ts with
  | nil => exact .nil
  | cons t ts ih =>
    obtain ⟨ht, hts⟩ := List.forall_mem_cons.mp h
    refine .cons (p := [planItem t]) ?_ (ih hts)
    have hkind : ∀ s, (recase s t).kind = t.kind := fun s => kind_recase s t
    cases hspace : t.isSpace with
    | true =>
      have hplain : t.kind ≠ .keyword := by simp_all [Token.isSpace]
      have hitem : planItem t = .blank := by simp [planItem, hspace]
      have hrecase : ∀ s, (recase s t).text = [' '] := fun s => by
        rw [recase_of_kind_ne s hplain, ht hspace]
      rw [hitem]
      refine ⟨by simp [twice, Twin.recase, hkind], hrecase s, hrecase s', fun _ => rfl,
        fun hcomment => ?_⟩
      have hkind' : t.kind = .comment := (hkind s).symm.trans hcomment
      simp [Token.isSpace, hkind'] at hspace
    | false =>
      have hitem : planItem t = .token t := by simp [planItem, hspace]
      rw [hitem]
      refine ⟨by simp [twice, Twin.recase, hkind], ?_, ?_, fun hspace' => ?_, fun hcomment => ?_⟩
      · simp [twice, Twin.recase, writePlan, PlanItem.write]
      · simp [twice, Twin.recase, writePlan, PlanItem.write]
      · have hblank : t.isSpace = true := (isSpace_recase s t).symm.trans hspace'
        rw [hspace] at hblank
        cases hblank
      · exact ⟨t, (hkind s).symm.trans hcomment, rfl⟩

/-- Two styles with one delimiter lay out a text by one plan when its keywords are ASCII and the
empty line behind a delimiter is a function word of the dialect in both styles or in none. -/
theorem onePlan (hdelimiter : s'.delimiter = s.delimiter) (hlines : EmptyLinesAlike d s s')
    {sql : Text} (hascii : ∀ t ∈ tokenize d sql, t.kind = .keyword → ∀ c ∈ t.text, c.toNat < 128) :
    OnePlan d s s' sql := by
  have hside : ∀ side : Twin → Token, (∀ t, side (twice t) = t) →
      ((reduced d sql).map twice).map side = reduced d sql := by
    intro side h
    simp [Function.comp_def, h]
  have hword : ∀ z ∈ (reduced d sql).map twice, z.left.isSpace = false →
      Text.asciiLower (recase s' z.right).text = Text.asciiLower (recase s z.left).text := by
    intro z hz hvisible
    obtain ⟨t, ht, rfl⟩ := List.mem_map.mp hz
    by_cases hkeyword : t.kind = .keyword
    · have hnarrow := hascii t (mem_of_mem_reduced ht hvisible) hkeyword
      show Text.asciiLower (recase s' t).text = Text.asciiLower (recase s t).text
      rw [text_recase hkeyword, text_recase hkeyword, Text.asciiLower_apply _ hnarrow,
        Text.asciiLower_apply _ hnarrow]
    · show Text.asciiLower (recase s' t).text = Text.asciiLower (recase s t).text
      rw [recase_of_kind_ne s' hkeyword, recase_of_kind_ne s hkeyword]
  have hkind : ∀ z ∈ (reduced d sql).map twice, z.right.kind = z.left.kind := by
    intro z hz
    obtain ⟨t, -, rfl⟩ := List.mem_map.mp hz
    rfl
  obtain ⟨r, hleft, hright, hr⟩ := exists_twins_format hdelimiter hlines
    (hside Twin.left fun _ => rfl) (hside Twin.right fun _ => rfl) hkind hword
  cases r with
  | none => exact .none hleft hright
  | some fs =>
    obtain ⟨hedits, hkindred⟩ := hr fs rfl
    obtain ⟨plan, hplan, hsettles⟩ :=
      (planned_twice fun t ht hspace => text_of_mem_reduced ht hspace).edits hedits
    rw [planTokens_map_planItem, visible_reduced] at hsettles
    obtain ⟨hconcat, hconcat'⟩ := hplan.concat
    have hends := endsWith_concat hkindred
    simp only [Option.map_some, keepFinalNewline, hends] at hleft hright
    rw [hconcat] at hleft hright
    rw [hconcat'] at hright
    split at hleft
    · next hfeed =>
      rw [if_pos hfeed] at hright
      refine .some (plan ++ [.feed]) ?_ (hleft.trans ?_) (hright.trans ?_)
      · simpa [planTokens_append] using hsettles
      · rw [writePlan_append]
        rfl
      · rw [writePlan_append]
        rfl
    · next hfeed =>
      rw [if_neg hfeed] at hright
      exact .some plan hsettles hleft hright

/-- Where functions have names that start with a letter, no empty line is one. -/
theorem emptyLinesAlike_of_namesFunctions (h : NamesFunctions d) (s s' : Style) :
    EmptyLinesAlike d s s' := by
  have hnone : ∀ (s : Style) (level : Int),
      d.isFunction (s.lineBreak level ++ s.lineBreak level) = false := by
    intro s level
    refine Bool.eq_false_iff.mpr fun hfunction => ?_
    obtain ⟨c, hc, hletter⟩ := h _ hfunction
    obtain rfl : '\n' = c := Option.some.inj hc
    exact absurd hletter (by decide)
  intro level
  rw [hnone, hnone]

/-- Keywords in lower case, one tab a level. -/
def tabbed : Style := { Style.default with
  keywordCase := .lower
  indentKind := .tab
  indentSize := 1
  indentSize_pos := by decide }

theorem onePlan_tabbed : tabbed.delimiter = Style.default.delimiter ∧
    EmptyLinesAlike .standard .default tabbed ∧
    (∀ t ∈ tokenize .standard "select 1,2".toList, t.kind = .keyword → ∀ c ∈ t.text, c.toNat < 128) ∧
    OnePlan .standard .default tabbed "select 1,2".toList := by
  have hdelimiter : tabbed.delimiter = Style.default.delimiter := rfl
  have hlines := emptyLinesAlike_of_namesFunctions namesFunctions_standard .default tabbed
  have hrest : Lexer.tokenizeFrom .standard 6 " 1,2".toList =
      [⟨.space, [' '], 6⟩, ⟨.value, ['1'], 7⟩, ⟨.symbol, [','], 8⟩, ⟨.value, ['2'], 9⟩] := by
    decide +kernel
  have hstops : ∀ c ∈ " 1,2".toList.head?, Lexer.isWordChar c = false := by
    intro c hc
    obtain rfl : ' ' = c := Option.some.inj hc
    decide
  have htokens : tokenize .standard ("select".toList ++ " 1,2".toList) = _ :=
    Lexer.tokenize_keyword ⟨⟨'s', by decide, by decide⟩, by decide⟩
      ((Dialect.isSome_classify_standard _).mpr ⟨"SELECT", by decide +kernel, by decide +kernel⟩)
      hstops
  rw [show Text.byteSize "select".toList = 6 from rfl, hrest] at htokens
  have hascii : ∀ t ∈ tokenize .standard ("select".toList ++ " 1,2".toList), t.kind = .keyword →
      ∀ c ∈ t.text, c.toNat < 128 := by
    rw [htokens]
    decide
  exact ⟨hdelimiter, hlines, hascii, onePlan hdelimiter hlines hascii⟩

/-! ## Empty lines that are functions -/

/-- The line feeds of a layout are those of its plan and those in its tokens. -/
theorem count_writePlan (s : Style) (plan : List PlanItem) :
    (writePlan s plan).count '\n' =
      plan.countP PlanItem.isFeed +
        ((planTokens plan).flatMap fun t => (recase s t).text).count '\n' := by
  have hunit : s.indentUnit.count '\n' = 0 := by
    refine List.count_eq_zero.mpr fun h => ?_
    have hchar := List.eq_of_mem_replicate h
    cases hkind : s.indentKind <;> rw [hkind] at hchar <;> exact absurd hchar (by decide)
  induction plan with
  | nil => rfl
  | cons item plan ih =>
    rw [writePlan_cons, List.count_append, List.countP_cons, ih]
    cases item with
    | feed =>
      simp only [PlanItem.write, PlanItem.isFeed, planTokens_feed, List.count_singleton_self,
        ↓reduceIte]
      omega
    | indent => simp [PlanItem.write, PlanItem.isFeed, hunit]
    | blank => simp [PlanItem.write, PlanItem.isFeed]
    | token t =>
      simp only [PlanItem.write, PlanItem.isFeed, planTokens_token, List.flatMap_cons,
        List.count_append, Bool.false_eq_true, ↓reduceIte]
      omega

/-- The standard dialect in which the empty line of one style is a function, and that of another is
not. -/
def emptyLineCalls : Dialect :=
  (Dialect.standard.register .function "\n    \n    ".toList).register .type "\n\t\n\t".toList

theorem emptyLineCalls_eq : emptyLineCalls =
    ⟨("\n\t\n\t".toList, .type) :: ("\n    \n    ".toList, .function) :: Dialect.standard.words,
      []⟩ := by
  have hunknown : ∀ text : Text, (Text.upper text).head? = some '\n' →
      Dialect.standard.classify text ≠ some .keyword := by
    intro text hfeed hkeyword
    obtain ⟨w, hw, hsame⟩ := (Dialect.isSome_classify_standard text).mp (by rw [hkeyword]; rfl)
    obtain ⟨c, hc, hletter⟩ := Dialect.head_standardWords hw
    rw [hsame, Dialect.upper_standardWords hw, hc] at hfeed
    obtain rfl : c = '\n' := Option.some.inj hfeed
    exact absurd hletter (by decide)
  have hblanks : Text.upper "\n    \n    ".toList = "\n    \n    ".toList := by decide
  have htabs : Text.upper "\n\t\n\t".toList = "\n\t\n\t".toList := by decide
  have hfirst := Dialect.register_of_classify
    (hunknown "\n    \n    ".toList (by rw [hblanks]; rfl)) .function
  have hsecond := Dialect.register_of_classify
    (Dialect.classify_register_ne_keyword "\n    \n    ".toList
      (show WordKind.function ≠ .keyword by decide)
      (hunknown "\n\t\n\t".toList (by rw [htabs]; rfl))) .type
  rw [hblanks, Dialect.commands_standard] at hfirst
  rw [htabs] at hsecond
  rw [emptyLineCalls, hsecond, hfirst]

theorem tokenize_emptyLineCalls : tokenize emptyLineCalls "select;(1,2)".toList =
    [⟨.keyword, "select".toList, 0⟩, ⟨.symbol, [';'], 6⟩, ⟨.symbol, ['('], 7⟩, ⟨.value, ['1'], 8⟩,
      ⟨.symbol, [','], 9⟩, ⟨.value, ['2'], 10⟩, ⟨.symbol, [')'], 11⟩] := by
  have hstandard : (Dialect.standard.classify "select".toList).isSome = true :=
    (Dialect.isSome_classify_standard _).mpr ⟨"SELECT", by decide +kernel, by decide +kernel⟩
  have hknown : (emptyLineCalls.classify "select".toList).isSome = true :=
    Dialect.isSome_classify_register _ _ (Dialect.isSome_classify_register _ _ hstandard)
  have hplain : emptyLineCalls.isCommand "select".toList = false := by
    rw [emptyLineCalls_eq, Dialect.isCommand, List.contains_nil]
  have hcut : 's' :: "elect;(1,2)".toList.takeWhile Lexer.isWordChar = "select".toList ∧
      "elect;(1,2)".toList.dropWhile Lexer.isWordChar = ";(1,2)".toList := by decide
  have hrest : Lexer.tokenizeFrom emptyLineCalls 6 ";(1,2)".toList =
      [⟨.symbol, [';'], 6⟩, ⟨.symbol, ['('], 7⟩, ⟨.value, ['1'], 8⟩, ⟨.symbol, [','], 9⟩,
        ⟨.value, ['2'], 10⟩, ⟨.symbol, [')'], 11⟩] := by
    rw [emptyLineCalls_eq]
    decide +kernel
  rw [tokenize, show "select;(1,2)".toList = 's' :: "elect;(1,2)".toList from rfl,
    Lexer.tokenizeFrom_cons, Lexer.lexeme_plainWord (by decide) (by rw [hcut.1, hplain]), hcut.1,
    hcut.2, Lexer.wordKind, hknown, if_pos rfl,
    show 0 + Text.byteSize "select".toList = 6 from rfl, hrest]

/-- With one style the brackets behind the empty line are a call, with the other they are not. -/
theorem not_onePlan_emptyLineCalls : tabbed.delimiter = Style.default.delimiter ∧
    (∀ t ∈ tokenize emptyLineCalls "select;(1,2)".toList, t.kind = .keyword →
      ∀ c ∈ t.text, c.toNat < 128) ∧
    ¬ OnePlan emptyLineCalls .default tabbed "select;(1,2)".toList := by
  have hleft : format emptyLineCalls .default "select;(1,2)".toList =
      some "SELECT;\n    \n    ( 1, 2 )".toList := by
    rw [format, tokenize_emptyLineCalls, emptyLineCalls_eq]
    decide +kernel
  have hright : format emptyLineCalls tabbed "select;(1,2)".toList =
      some "select;\n\t\n\t(\n\t\t1,\n\t\t2\n\t)".toList := by
    rw [format, tokenize_emptyLineCalls, emptyLineCalls_eq]
    decide +kernel
  refine ⟨rfl, by rw [tokenize_emptyLineCalls]; decide, ?_⟩
  rintro (⟨hnone, -⟩ | ⟨plan, htokens, hplan, hplan'⟩)
  · rw [hleft] at hnone
    cases hnone
  · have hplain : planTokens plan =
        Token.visible (tokenize emptyLineCalls "select;(1,2)".toList) := by
      refine eq_of_forall₂_settles ?_ htokens
      rw [tokenize_emptyLineCalls]
      decide
    have hcount := count_writePlan .default plan
    have hcount' := count_writePlan tabbed plan
    rw [hplain, tokenize_emptyLineCalls, ← Option.some.inj (hleft.symm.trans hplan)] at hcount
    rw [hplain, tokenize_emptyLineCalls, ← Option.some.inj (hright.symm.trans hplan')] at hcount'
    -- two line feeds in one layout and five in the other, none of them in a token
    have htwo : plan.countP PlanItem.isFeed = 2 := hcount.symm
    have hfive : plan.countP PlanItem.isFeed = 5 := hcount'.symm
    omega

end SqlLayout.Layout

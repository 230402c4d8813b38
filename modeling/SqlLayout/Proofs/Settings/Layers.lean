import SqlLayout.CommandLine.Invocation
import SqlLayout.Proofs.Folder
import SqlLayout.Proofs.Style

/-!
# The layers of settings

The settings of a file are laid over the default style, and those of a request over the result.  Each
setting of the mode comes from the uppermost layer that has it, and a layer is refused for what it
sets itself, never for what it takes over from below (`mode_layers`).
-/

namespace SqlLayout

/-! ## Steps that may fail -/

section

variable {ε α β : Type}

theorem bind_eq_ok {x : Except ε α} {f : α → Except ε β} {b : β} :
    (x >>= f) = .ok b ↔ ∃ a, x = .ok a ∧ f a = .ok b := by
  cases x <;> simp [bind, Except.bind]

theorem optionMapM_eq_ok {f : α → Except ε β} {o : Option α} {o' : Option β} :
    o.mapM f = .ok o' ↔ (∀ a ∈ o, ∃ b, f a = .ok b) ∧ o' = o.bind fun a => (f a).toOption := by
  cases o with
  | none => simp [pure, Except.pure, eq_comm]
  | some a =>
    cases hf : f a with
    | error e => simp [Option.mapM_some, hf, Functor.map, Except.map]
    | ok b => simp [Option.mapM_some, hf, Functor.map, Except.map, Except.toOption, eq_comm]

end

/-! ## One layer -/

namespace FileSettings

/-- The keyword case and the indent kind of the settings are known words. -/
structure Known (f : FileSettings) : Prop where
  keywordCase : ∀ s ∈ f.keywordCase, ∃ k, KeywordCase.parse s = .ok k
  indentKind : ∀ s ∈ f.indentKind, ∃ k, IndentKind.parse s = .ok k

/-- The keyword case that the settings name. -/
def namedCase (f : FileSettings) : Option KeywordCase :=
  f.keywordCase.bind fun s => (KeywordCase.parse s).toOption

/-- The indent kind that the settings name. -/
def namedKind (f : FileSettings) : Option IndentKind :=
  f.indentKind.bind fun s => (IndentKind.parse s).toOption

/-- The choices of settings with known words. -/
def named (f : FileSettings) : Style.Choices where
  keywordCase := f.namedCase
  indentKind := f.namedKind
  indentSize := f.indentSize
  delimiter := f.delimiter

variable {f : FileSettings} {c : Style.Choices} {mode base : Mode}

theorem choices_eq_ok_iff : f.choices = .ok c ↔
    f.Known ∧ c = f.named := by
  simp only [choices, bind_eq_ok, optionMapM_eq_ok]
  constructor
  · rintro ⟨keywordCase, ⟨hcase, rfl⟩, indentKind, ⟨hkind, rfl⟩, hc⟩
    exact ⟨⟨hcase, hkind⟩, (Except.ok.inj hc).symm⟩
  · rintro ⟨⟨hcase, hkind⟩, rfl⟩
    exact ⟨_, ⟨hcase, rfl⟩, _, ⟨hkind, rfl⟩, rfl⟩

/-- Settings change the style and what is left out, and nothing else. -/
theorem applyTo_eq_ok_iff : f.applyTo base = .ok mode ↔ f.Known ∧
    ∃ style, base.style.overlay f.named = .ok style ∧
      mode = { base with style, exclude := if f.exclude.isEmpty then base.exclude else f.exclude } := by
  simp only [applyTo, bind_eq_ok, choices_eq_ok_iff]
  constructor
  · rintro ⟨c, ⟨hknown, rfl⟩, style, hstyle, hmode⟩
    exact ⟨hknown, style, hstyle, (Except.ok.inj hmode).symm⟩
  · rintro ⟨hknown, style, hstyle, rfl⟩
    exact ⟨_, ⟨hknown, rfl⟩, style, hstyle, rfl⟩

/-- Settings that set nothing are never refused and change nothing. -/
theorem applyTo_nothing (base : Mode) : FileSettings.applyTo {} base = .ok base :=
  applyTo_eq_ok_iff.mpr ⟨⟨by simp, by simp⟩, base.style, Style.make_self base.style, rfl⟩

end FileSettings

namespace CommandLine.Request

variable {r : Request} {base mode : Mode}

theorem exists_modeOver_iff :
    (∃ mode, r.modeOver base = .ok mode) ↔ ∃ style, base.style.overlay r.style = .ok style := by
  simp only [modeOver, bind_eq_ok]
  constructor
  · rintro ⟨mode, style, hstyle, -⟩
    exact ⟨style, hstyle⟩
  · rintro ⟨style, hstyle⟩
    exact ⟨_, style, hstyle, rfl⟩

theorem of_modeOver (h : r.modeOver base = .ok mode) : base.style.overlay r.style = .ok mode.style ∧
    mode.exclude = if r.exclude.isEmpty then base.exclude else r.exclude := by
  obtain ⟨style, hstyle, hmode⟩ := bind_eq_ok.mp h
  obtain rfl := Except.ok.inj hmode
  exact ⟨hstyle, rfl⟩

end CommandLine.Request

/-! ## Where the settings come from -/

namespace Settings

/-- There is a TOML file at the path, and its settings are these. -/
structure Holds (fs : FileSystem) (path : Text) (f : FileSettings) : Prop where
  toml : Path.extension? path ≠ some "properties".toList
  settings : ∃ text, fs.read path = .ok text ∧
    parseToml (Path.fileName? path = some projectName) text = .ok f

/-- The settings that some inputs lead to: those of the file that is asked for, or of the one that is
found, or those of the user.  Without any of them nothing is set. -/
inductive Finds (w : Workspace) (paths : List Text) : Option Text → FileSettings → Prop
  | given {path : Text} {f : FileSettings} (there : w.fs.exists? path = true)
      (holds : Holds w.fs path f) : Finds w paths (some path) f
  | found {path : Text} {f : FileSettings} (found : discover w.fs paths = some path)
      (holds : Holds w.fs path f) : Finds w paths none f
  | user {content : ByteArray} {text : Text} {f : FileSettings}
      (none_found : discover w.fs paths = none) (user : w.userSettings = some content)
      (readable : Folder.decode content = .ok text) (holds : parseToml false text = .ok f) :
      Finds w paths none f
  | nothing (none_found : discover w.fs paths = none) (no_user : w.userSettings = none) :
      Finds w paths none {}

variable {w : Workspace} {paths : List Text} {path : Text} {file : Option Text} {f : FileSettings}

theorem loadFile_of_holds (h : Holds w.fs path f) :
    loadFile w.fs path = liftOption (f.applyTo {}) := by
  obtain ⟨text, hread, hsettings⟩ := h.settings
  rw [loadFile, if_neg h.toml, hread]
  have hstep : liftRead (.ok text : Except ReadFault Text) = .ok text := rfl
  rw [hstep]
  show (parseToml _ text >>= _) = _
  rw [hsettings]
  rfl

theorem load_of_finds (h : Finds w paths file f) : load w paths file = liftOption (f.applyTo {}) := by
  cases h with
  | given there holds =>
    rw [load, if_pos there]
    exact loadFile_of_holds holds
  | found found holds =>
    rw [load]
    simp only [found]
    exact loadFile_of_holds holds
  | user none_found user readable holds =>
    rw [load]
    simp only [none_found, user, loadUser, readable, liftRead]
    show (parseToml false _ >>= _) = _
    rw [holds]
    rfl
  | nothing none_found no_user =>
    rw [load]
    simp only [none_found, no_user]
    rw [FileSettings.applyTo_nothing]
    rfl

theorem liftOption_eq_ok_iff {α : Type} {x : Except OptionFault α} {a : α} :
    liftOption x = .ok a ↔ x = .ok a := by
  cases x <;> simp [liftOption]

end Settings

/-! ## All layers -/

namespace CommandLine.Request

/-- The file names known words, a style can be made of its settings over the default one, and of the
choices over the result. -/
structure Fits (f : FileSettings) (c : Style.Choices) : Prop where
  known : f.Known
  accepted : ∃ file style, Style.default.overlay f.named = .ok file ∧ file.overlay c = .ok style

/-- Every setting is that of the request, else that of the file, else the default one. -/
structure Resolved (f : FileSettings) (r : Request) (mode : Mode) : Prop where
  keywordCase : mode.style.keywordCase = (r.style.keywordCase.or f.namedCase).getD .upper
  indentKind : mode.style.indentKind = (r.style.indentKind.or f.namedKind).getD .blank
  indentSize : mode.style.indentSize = (r.style.indentSize.or f.indentSize).getD 4
  delimiter : mode.style.delimiter = Text.trim ((r.style.delimiter.or f.delimiter).getD [';'])
  indentUnit : mode.style.indentUnit =
    List.replicate mode.style.indentSize mode.style.indentKind.char
  positive : 1 ≤ mode.style.indentSize
  visible : (∃ c ∈ mode.style.delimiter.head?, Text.isBlank c = false) ∧
    ∃ c ∈ mode.style.delimiter.getLast?, Text.isBlank c = false
  exclude : mode.exclude = if r.exclude = [] then f.exclude else r.exclude

variable {r : Request} {w : Workspace} {f : FileSettings} {c : Style.Choices} {base mode : Mode}

theorem mode_eq_ok_iff : r.mode w = .ok mode ↔
    ∃ base, Settings.load w r.files r.settings = .ok base ∧ r.modeOver base = .ok mode := by
  unfold Request.mode
  split
  · next e hload => simp [hload]
  · next base hload =>
    simp only [hload, Except.ok.injEq, exists_eq_left']
    cases r.modeOver base <;> simp

/-- A mode is what the request makes of what the file makes of the defaults. -/
theorem mode_eq_ok_iff_of_finds (h : Settings.Finds w r.files r.settings f) : r.mode w = .ok mode ↔
    ∃ base, f.applyTo {} = .ok base ∧ r.modeOver base = .ok mode := by
  simp only [mode_eq_ok_iff, Settings.load_of_finds h, Settings.liftOption_eq_ok_iff]

theorem of_applyTo_default (h : f.applyTo {} = .ok base) :
    base.style.keywordCase = f.namedCase.getD .upper ∧
      base.style.indentKind = f.namedKind.getD .blank ∧
      base.style.indentSize = f.indentSize.getD Style.default.indentSize ∧
      base.style.delimiter = Text.trim (f.delimiter.getD Style.default.delimiter) ∧
      base.exclude = f.exclude := by
  obtain ⟨-, style, hstyle, rfl⟩ := FileSettings.applyTo_eq_ok_iff.mp h
  obtain ⟨-, hcase, hkind, hsize, hdelimiter⟩ := Style.overlay_eq_ok_iff.mp hstyle
  refine ⟨hcase, hkind, hsize, hdelimiter, ?_⟩
  cases f.exclude <;> rfl

theorem exists_mode_iff (h : Settings.Finds w r.files r.settings f) :
    (∃ mode, r.mode w = .ok mode) ↔ Fits f r.style := by
  simp only [mode_eq_ok_iff_of_finds h]
  constructor
  · rintro ⟨mode, base, hbase, hmode⟩
    obtain ⟨hknown, file, hfile, rfl⟩ := FileSettings.applyTo_eq_ok_iff.mp hbase
    obtain ⟨style, hstyle⟩ := exists_modeOver_iff.mp ⟨mode, hmode⟩
    exact ⟨hknown, file, style, hfile, hstyle⟩
  · rintro ⟨hknown, file, style, hfile, hstyle⟩
    obtain ⟨base, hbase, rfl⟩ : ∃ base, f.applyTo {} = .ok base ∧ base.style = file :=
      ⟨_, FileSettings.applyTo_eq_ok_iff.mpr ⟨hknown, file, hfile, rfl⟩, rfl⟩
    obtain ⟨mode, hmode⟩ := exists_modeOver_iff.mpr ⟨style, hstyle⟩
    exact ⟨mode, base, hbase, hmode⟩

/-- A layer is refused for what it sets only, whatever the other one sets. -/
theorem fits_iff : Fits f c ↔ f.Known ∧
    ((∀ n ∈ f.indentSize, 0 < n) ∧ ∀ d ∈ f.delimiter, Text.trim d ≠ []) ∧
    (∀ n ∈ c.indentSize, 0 < n) ∧ ∀ d ∈ c.delimiter, Text.trim d ≠ [] := by
  have hfile : (∃ file, Style.default.overlay f.named = .ok file) ↔
      (∀ n ∈ f.indentSize, 0 < n) ∧ ∀ d ∈ f.delimiter, Text.trim d ≠ [] :=
    Style.exists_overlay_iff Style.default f.named
  constructor
  · rintro ⟨hknown, file, style, hover, hstyle⟩
    exact ⟨hknown, hfile.mp ⟨file, hover⟩, (Style.exists_overlay_iff file c).mp ⟨style, hstyle⟩⟩
  · rintro ⟨hknown, hset, hchosen⟩
    obtain ⟨file, hover⟩ := hfile.mpr hset
    obtain ⟨style, hstyle⟩ := (Style.exists_overlay_iff file c).mpr hchosen
    exact ⟨hknown, file, style, hover, hstyle⟩

theorem resolved_of_mode (h : Settings.Finds w r.files r.settings f) (hmode : r.mode w = .ok mode) :
    Resolved f r mode := by
  obtain ⟨base, hbase, hover⟩ := (mode_eq_ok_iff_of_finds h).mp hmode
  obtain ⟨hcase, hkind, hsize, hdelimiter, hexclude⟩ := of_applyTo_default hbase
  obtain ⟨hstyle, hexclude'⟩ := of_modeOver hover
  obtain ⟨-, hcase', hkind', hsize', hdelimiter'⟩ := Style.overlay_eq_ok_iff.mp hstyle
  exact {
    keywordCase := by rw [hcase', hcase, Option.getD_or]
    indentKind := by rw [hkind', hkind, Option.getD_or]
    indentSize := by rw [hsize', hsize, Option.getD_or]; rfl
    delimiter := by
      rw [hdelimiter', hdelimiter, Option.getD_or]
      cases r.style.delimiter with
      | none => exact Text.trim_trim _
      | some d => rfl
    indentUnit := rfl
    positive := mode.style.indentSize_pos
    visible := mode.style.visible_delimiter
    exclude := by
      rw [hexclude', hexclude]
      cases r.exclude <;> rfl }

/-- There is a mode exactly when the settings that are found name known words, a style can be made of
them over the default one, and of the request over the result; no layer is refused for what another
one sets.  Then every setting is that of the request, else that of the file, else the default one.  A
style is always made again from its own settings. -/
theorem mode_layers (h : Settings.Finds w r.files r.settings f) :
    ((∃ mode, r.mode w = .ok mode) ↔ Fits f r.style) ∧
    (Fits f r.style ↔ f.Known ∧
      ((∀ n ∈ f.indentSize, 0 < n) ∧ ∀ d ∈ f.delimiter, Text.trim d ≠ []) ∧
      (∀ n ∈ r.style.indentSize, 0 < n) ∧ ∀ d ∈ r.style.delimiter, Text.trim d ≠ []) ∧
    (∀ mode, r.mode w = .ok mode → Resolved f r mode) ∧
    ∀ s : Style, Style.make s.keywordCase s.indentKind s.indentSize s.delimiter = .ok s :=
  ⟨exists_mode_iff h, fits_iff, fun _ hmode => resolved_of_mode h hmode, Style.make_self⟩

/-- Settings for two of the options, the delimiter with blanks around it. -/
def goSettings : FileSettings where
  indentSize := some 2
  delimiter := some " go ".toList
  exclude := ["x".toList]

/-- The settings as a file has them. -/
def goText : Text :=
  "indent_size = 2\nstatement_delimiter = \" go \"\nexclude = [\"x\"]\n".toList

/-- A current folder with these settings and no other file. -/
def goFolder : FileSystem :=
  .ofFolder [] (.file Settings.settingsName (Folder.encode goText) .empty)

/-- A request for lower-case keywords and four characters a level. -/
def wider : Request where
  files := ["a.sql".toList]
  style := { keywordCase := some .lower, indentSize := some 4 }

/-- The request wins over the file, and the file over the default style. -/
theorem mode_layers_wider :
    Settings.Finds ⟨goFolder, none⟩ wider.files wider.settings goSettings ∧
    ∃ mode, wider.mode ⟨goFolder, none⟩ = .ok mode ∧ mode.style.keywordCase = .lower ∧
      mode.style.indentKind = .blank ∧ mode.style.indentSize = 4 ∧
      mode.style.delimiter = "go".toList ∧ mode.exclude = ["x".toList] := by
  have hread : goFolder.read "./sqltidy.toml".toList = .ok goText := Folder.decode_encode goText
  have hparse : (Settings.parseToml false goText).toOption = some goSettings := by decide +kernel
  have hholds : Settings.Holds goFolder "./sqltidy.toml".toList goSettings := by
    refine ⟨by decide, goText, hread, ?_⟩
    have hname : decide (Path.fileName? "./sqltidy.toml".toList = some Settings.projectName) =
        false := by decide
    rw [hname]
    cases hresult : Settings.parseToml false goText with
    | error e => rw [hresult] at hparse; cases hparse
    | ok f => rw [hresult] at hparse; rw [Option.some.inj hparse]
  have hfinds : Settings.Finds ⟨goFolder, none⟩ wider.files wider.settings goSettings :=
    .found (by decide +kernel) hholds
  obtain ⟨hmode, hfits, hresolved, -⟩ := mode_layers hfinds
  have htrim : Text.trim " go ".toList ≠ [] := by decide
  have hset : (∀ n ∈ goSettings.indentSize, 0 < n) ∧
      ∀ d ∈ goSettings.delimiter, Text.trim d ≠ [] := by
    refine ⟨by simp [goSettings], ?_⟩
    rintro d ⟨⟩
    exact htrim
  obtain ⟨mode, hmode⟩ := hmode.mpr (hfits.mpr ⟨⟨by simp [goSettings], by simp [goSettings]⟩,
    hset, by simp [wider]⟩)
  have h := hresolved mode hmode
  exact ⟨hfinds, mode, hmode, h.keywordCase, h.indentKind, h.indentSize, h.delimiter, h.exclude⟩

end CommandLine.Request

end SqlLayout

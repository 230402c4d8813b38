import SqlLayout.Folder

/-!
What can be seen of a file system: at each location nothing, a file with its bytes, or a folder.
Where a path leads and what it reads depend on nothing else but the current folder, and writing to a
file that is there changes the sight of its location only.
-/

namespace SqlLayout

/-- What can be seen at a location. -/
inductive Sight where
  | nothing
  | file (content : ByteArray)
  | folder

namespace Sight

/-- What can be seen of an entry. -/
def ofEntry : Option Entry → Sight
  | none => .nothing
  | some (.file content) => .file content
  | some (.folder _) => .folder

/-- Two sights that differ in the bytes of a file at most. -/
def Alike : Sight → Sight → Prop
  | .nothing, .nothing | .file _, .file _ | .folder, .folder => True
  | _, _ => False

/-- The text read where this is seen. -/
def read : Sight → Except ReadFault Text
  | .nothing => .error .missing
  | .file content => Folder.decode content
  | .folder => .error .isAFolder

@[simp] theorem Alike.refl (a : Sight) : a.Alike a := by cases a <;> trivial

theorem Alike.trans {a b c : Sight} (hab : a.Alike b) (hbc : b.Alike c) : a.Alike c := by
  cases a <;> cases b <;> cases c <;> trivial

theorem Alike.symm {a b : Sight} (h : a.Alike b) : b.Alike a := by
  cases a <;> cases b <;> trivial

theorem eq_file_of_read {a : Sight} {text : Text} (h : a.read = .ok text) :
    ∃ content, a = .file content ∧ Folder.decode content = .ok text := by
  cases a with
  | file content => exact ⟨content, rfl, h⟩
  | nothing | folder => cases h

end Sight

namespace Folder

/-- What can be seen at a location of a folder. -/
def sight (f : Folder) (location : Location) : Sight := .ofEntry (f.entryAt? location)

theorem sight_cons (f : Folder) (name : Text) (location : Location) :
    f.sight (name :: location) =
      match f.entry? name with
      | none => .nothing
      | some (.file content) => if location = [] then .file content else .nothing
      | some (.folder inside) => inside.sight location := by
  simp only [sight, entryAt?]
  cases f.entry? name with
  | none => rfl
  | some e => cases e with
    | file content => cases location <;> rfl
    | folder inside => rfl

/-! ## Where paths lead -/

theorem sight_append_singleton {f inside : Folder} {location : Location}
    (h : f.entryAt? location = some (.folder inside)) (name : Text) :
    f.sight (location ++ [name]) = .ofEntry (inside.entry? name) := by
  induction location generalizing f with
  | nil =>
    obtain rfl : f = inside := by simpa [entryAt?] using h
    rw [List.nil_append, sight_cons]
    cases f.entry? name with
    | none => rfl
    | some e => cases e <;> rfl
  | cons n ns ih =>
    rw [List.cons_append, sight_cons]
    rw [entryAt?] at h
    cases hn : f.entry? n with
    | none => rw [hn] at h; cases h
    | some e => cases e with
      | file content => cases ns <;> rw [hn] at h <;> cases h
      | folder g => rw [hn] at h; exact ih h

/-- Whether a folder has an entry of some name can be seen from outside. -/
theorem isSome_entry?_iff {f inside : Folder} {location : Location}
    (h : f.entryAt? location = some (.folder inside)) (name : Text) :
    (inside.entry? name).isSome = true ↔ ¬ (f.sight (location ++ [name])).Alike .nothing := by
  rw [sight_append_singleton h]
  cases inside.entry? name with
  | none => simp [Sight.ofEntry, Sight.Alike]
  | some e => cases e <;> simp [Sight.ofEntry, Sight.Alike]

theorem resolveFrom_congr {f g : Folder}
    (h : ∀ location, (f.sight location).Alike (g.sight location)) (location : Location)
    (pieces : List Text) : f.resolveFrom location pieces = g.resolveFrom location pieces := by
  induction pieces generalizing location with
  | nil => rfl
  | cons piece pieces ih =>
    have hhere := h location
    rw [sight, sight] at hhere
    simp only [resolveFrom]
    cases hf : f.entryAt? location with
    | none =>
      rw [hf] at hhere
      cases hg : g.entryAt? location with
      | none => rfl
      | some e => rw [hg] at hhere; cases e <;> cases hhere
    | some e =>
      rw [hf] at hhere
      cases hg : g.entryAt? location with
      | none => rw [hg] at hhere; cases e <;> cases hhere
      | some e' =>
        rw [hg] at hhere
        cases e with
        | file _ => cases e' with
          | file _ => rfl
          | folder _ => cases hhere
        | folder inside => cases e' with
          | file _ => cases hhere
          | folder inside' =>
            have hnext : (inside.entry? piece).isSome = (inside'.entry? piece).isSome := by
              rw [Bool.eq_iff_iff, isSome_entry?_iff hf, isSome_entry?_iff hg]
              exact ⟨mt (h _).trans, mt (h _).symm.trans⟩
            simp only [ih, hnext]

/-- Pieces that say nothing lead nowhere else, as long as others follow. -/
theorem resolveFrom_cons_still (f : Folder) (location : Location) {piece : Text}
    (h : piece = [] ∨ piece = ['.']) {pieces : List Text} (hne : pieces ≠ []) :
    f.resolveFrom location (piece :: pieces) = f.resolveFrom location pieces := by
  have hstill : (decide (piece = []) || decide (piece = ['.'])) = true := by simpa using h
  obtain ⟨next, rest, rfl⟩ := List.exists_cons_of_ne_nil hne
  rw [resolveFrom]
  cases hentry : f.entryAt? location with
  | none => simp [resolveFrom, hentry]
  | some e => cases e with
    | file _ => simp [resolveFrom, hentry]
    | folder _ => simp [hstill]

/-! ## Writing -/

theorem decode_encode (text : Text) : decode (encode text) = .ok text := by
  have hvalid : (encode text).IsValidUTF8 := (String.ofList text).isValidUTF8
  have hfrom : String.fromUTF8? (encode text) = some (String.ofList text) := by
    rw [String.fromUTF8?, dif_pos hvalid]
    rfl
  simp [decode, hfrom]

theorem encode_injective {a b : Text} (h : encode a = encode b) : a = b := by
  have hdecode := decode_encode a
  rw [h, decode_encode b] at hdecode
  exact (Except.ok.inj hdecode).symm

theorem entry?_set (name : Text) (e : Entry) (f : Folder) (other : Text) :
    Folder.entry? other (f.set name e) = if other = name then some e else f.entry? other := by
  induction f with
  | empty => cases e <;> simp [set, entry?, eq_comm]
  | file n _ others ih | folder n _ others _ ih =>
    unfold set
    by_cases hn : n = name
    · subst hn
      cases e <;> simp only [↓reduceIte, entry?, eq_comm (a := other)] <;> split <;> rfl
    · simp only [hn, ↓reduceIte, entry?, ih]
      grind

/-- Writing to a file that is there changes what is seen at its location, and nothing else. -/
theorem sight_writeAt {f : Folder} {location : Location} {content : ByteArray}
    (h : f.sight location = .file content) (new : ByteArray) (other : Location) :
    (f.writeAt new location).sight other =
      if other = location then .file new else f.sight other := by
  induction location generalizing f other with
  | nil => cases h
  | cons n ns ih =>
    cases other with
    | nil => rfl
    | cons m ms =>
      rw [sight_cons] at h
      cases ns with
      | nil =>
        rw [writeAt, sight_cons, sight_cons, entry?_set]
        by_cases hm : m = n
        · subst hm
          cases he : f.entry? m with
          | none => rw [he] at h; cases h
          | some e => cases e with
            | file _ => cases ms <;> simp
            | folder _ => rw [he] at h; cases h
        · simp [hm]
      | cons n' ns =>
        have hinside : ∃ inside, f.entry? n = some (.folder inside) ∧
            inside.sight (n' :: ns) = .file content := by
          cases he : f.entry? n with
          | none => rw [he] at h; cases h
          | some e => cases e with
            | file _ => rw [he] at h; cases h
            | folder inside => rw [he] at h; exact ⟨inside, rfl, h⟩
        obtain ⟨inside, he, hi⟩ := hinside
        rw [writeAt, sight_cons, sight_cons, entry?_set, subfolder, he]
        by_cases hm : m = n
        · subst hm
          simpa [he] using ih hi ms
        · simp [hm]
        simp

end Folder

namespace FileSystem

/-- What can be seen at a location of a file system. -/
def sight (fs : FileSystem) (location : Location) : Sight := fs.root.sight location

/-- File systems with the same current folder and with the same files and folders, whatever the bytes
of the files. -/
structure SameShape (fs gs : FileSystem) : Prop where
  here : fs.here = gs.here
  alike : ∀ location, (fs.sight location).Alike (gs.sight location)

theorem SameShape.refl (fs : FileSystem) : fs.SameShape fs := ⟨rfl, fun _ => .refl _⟩

theorem SameShape.trans {fs gs ks : FileSystem} (hfg : fs.SameShape gs) (hgk : gs.SameShape ks) :
    fs.SameShape ks :=
  ⟨hfg.here.trans hgk.here, fun location => (hfg.alike location).trans (hgk.alike location)⟩

theorem SameShape.symm {fs gs : FileSystem} (h : fs.SameShape gs) : gs.SameShape fs :=
  ⟨h.here.symm, fun location => (h.alike location).symm⟩

theorem SameShape.exists_file {fs gs : FileSystem} (h : fs.SameShape gs) {location : Location}
    {content : ByteArray} (hg : gs.sight location = .file content) :
    ∃ before, fs.sight location = .file before := by
  have halike := h.alike location
  rw [hg] at halike
  cases hf : fs.sight location with
  | file before => exact ⟨before, rfl⟩
  | nothing | folder => rw [hf] at halike; cases halike

variable {fs gs : FileSystem} {path text : Text} {location : Location} {content : ByteArray}

/-! ## Reading -/

/-- A path of several pieces starts at the root when the first one is empty, else in the current
folder. -/
theorem resolve_of_pieces {piece : Text} {pieces : List Text}
    (h : Text.splitAtMark '/' path = piece :: pieces) (hne : pieces ≠ []) :
    fs.resolve path =
      fs.root.resolveFrom (if piece = [] then [] else fs.here) (piece :: pieces) := by
  obtain ⟨next, rest, rfl⟩ := List.exists_cons_of_ne_nil hne
  rw [resolve, h]
  cases piece with
  | nil => rw [if_pos rfl, Folder.resolveFrom_cons_still fs.root [] (.inl rfl) hne]
  | cons c cs => rw [if_neg (by simp)]

/-- Paths lead to the same locations in file systems of the same shape. -/
theorem resolve_congr (h : fs.SameShape gs) (path : Text) : fs.resolve path = gs.resolve path := by
  simp only [resolve, h.here, Folder.resolveFrom_congr h.alike]

theorem read_of_resolve (h : fs.resolve path = .ok location) :
    fs.read path = (fs.sight location).read := by
  simp only [read, entry, h, sight, Folder.sight, bind, Except.bind]
  cases fs.root.entryAt? location with
  | none => rfl
  | some e => cases e <;> rfl

theorem read_of_resolve_error {fault : ReadFault} (h : fs.resolve path = .error fault) :
    fs.read path = .error fault := by
  simp only [read, entry, h, bind, Except.bind]

/-- A path that can be read leads to a file. -/
theorem exists_sight_of_read (h : fs.read path = .ok text) :
    ∃ location content, fs.resolve path = .ok location ∧ fs.sight location = .file content ∧
      Folder.decode content = .ok text := by
  cases hr : fs.resolve path with
  | error fault => rw [read_of_resolve_error hr] at h; cases h
  | ok location =>
    rw [read_of_resolve hr] at h
    obtain ⟨content, hsight, hdecode⟩ := Sight.eq_file_of_read h
    exact ⟨location, content, rfl, hsight, hdecode⟩

/-- A path reads the same in file systems of the same shape that look alike where it leads. -/
theorem read_congr (h : fs.SameShape gs)
    (hsight : ∀ location, gs.resolve path = .ok location → fs.sight location = gs.sight location) :
    fs.read path = gs.read path := by
  have hresolve := resolve_congr h path
  cases hr : gs.resolve path with
  | error fault => rw [read_of_resolve_error hr, read_of_resolve_error (hresolve.trans hr)]
  | ok location =>
    rw [read_of_resolve hr, read_of_resolve (hresolve.trans hr), hsight location hr]

/-! ## Writing -/

theorem sight_write (hresolve : fs.resolve path = .ok location)
    (h : fs.sight location = .file content) (text : Text) (other : Location) :
    (fs.write path text).sight other =
      if other = location then .file (Folder.encode text) else fs.sight other := by
  rw [write, hresolve]
  exact Folder.sight_writeAt h _ _

/-- Writing to a file that is there makes and takes away nothing. -/
theorem sameShape_write (hresolve : fs.resolve path = .ok location)
    (h : fs.sight location = .file content) (text : Text) : (fs.write path text).SameShape fs where
  here := by rw [write, hresolve]
  alike other := by
    rw [sight_write hresolve h]
    split
    · next hother => rw [hother, h]; trivial
    · exact .refl _

end FileSystem

end SqlLayout

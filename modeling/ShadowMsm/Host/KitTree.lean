import ShadowMsm.Host.KitManifest

/-!
# The writer of the manifest

The end of `main` of `build_linux_shell_iso_kit.py`: it lists all files of the kit but those named `SHA256SUMS`, a line
for each, and writes the list as `SHA256SUMS` at the top.  The files are given by the names on the way to them and their
contents.  What it writes is read back line by line (`readText_checksumFile`), on the same flavour or on the other one.
-/

namespace ShadowMsm.Host

open PurePath

/-- Files by the names on the way to them, with their contents. -/
abbrev Files := List (List (List Char) × Bytes)

/-! ### Texts -/

/-- `os.linesep` -/
def lineSep : Flavour → List Char
  | .posix => ['\n']
  | .windows => ['\r', '\n']

/-- A character in the message of a `UnicodeEncodeError`. -/
def escapeChar (c : Char) : String :=
  if c.toNat < 0x100 then "\\x" ++ (formatHex 2 c.toNat).toLower
  else if c.toNat < 0x10000 then "\\u" ++ (formatHex 4 c.toNat).toLower
  else "\\U" ++ (formatHex 8 c.toNat).toLower

/-- `text.encode("ascii")`; the error is a `UnicodeEncodeError`, which is a `ValueError`. -/
def encodeStrict (text : List Char) : Except Exn Bytes :=
  match text.findIdx? (0x80 ≤ ·.toNat) with
  | none => return text.map fun c => BitVec.ofNat 8 c.toNat
  | some i =>
    let bad := (text.drop i).takeWhile (0x80 ≤ ·.toNat)
    let place := match bad with
      | [c] => " '" ++ escapeChar c ++ "' in position " ++ toString i
      | _ => "s in position " ++ toString i ++ "-" ++ toString (i + bad.length - 1)
    throw (.valueError ("'ascii' codec can't encode character" ++ place ++ ": ordinal not in range(128)"))

/-- The bytes of `path.write_text(text, encoding="ascii")`. -/
def writeText (f : Flavour) (text : List Char) : Except Exn Bytes :=
  encodeStrict (text.flatMap fun c => if c = '\n' then lineSep f else [c])

/-! ### The list -/

/-- The path of a file below its directory. -/
def relativePath (path : List (List Char)) : PurePath := ⟨[], [], path⟩

/-- The files that the loop over `sorted(output.rglob("*"))` does not skip. -/
def listedFiles (f : Flavour) (files : Files) : Files :=
  (files.mergeSort fun x y => ¬ y.1.map f.casefold < x.1.map f.casefold).filter fun x => x.1.getLast? ≠ some manifestName

/-- `f"{sha256(path)}  {relative}"` -/
def checksumLine (f : Flavour) (sha256 : Bytes → List Char) (file : List (List Char) × Bytes) : List Char :=
  sha256 file.2 ++ [' ', ' '] ++ asPosix f (relativePath file.1)

/-- The contents of `SHA256SUMS`. -/
def checksumFile (f : Flavour) (sha256 : Bytes → List Char) (files : Files) : Except Exn Bytes :=
  writeText f (['\n'].intercalate ((listedFiles f files).map (checksumLine f sha256)) ++ ['\n'])

/-- The write of `SHA256SUMS`, which is opened, and so emptied, before the text is encoded. -/
def writeManifest (f : Flavour) (sha256 : Bytes → List Char) (output : PurePath) (files : Files) (disk : Disk) :
    Except Exn Unit × Disk :=
  let key := (divText f output manifestName).cparts f
  if disk key = some .directory then (.error .osError, disk)
  else
    match checksumFile f sha256 files with
    | .error e => (.error e, Function.update disk key (some (.file [])))
    | .ok data => (.ok (), Function.update disk key (some (.file data)))

/-! ### Trees -/

/-- Neither path is the other one or goes on from it. -/
def Apart (f : Flavour) (p q : List (List Char)) : Prop :=
  ¬ p.map f.casefold <+: q.map f.casefold ∧ ¬ q.map f.casefold <+: p.map f.casefold

instance (f : Flavour) (p q : List (List Char)) : Decidable (Apart f p q) :=
  inferInstanceAs (Decidable (¬ _ ∧ ¬ _))

instance (f : Flavour) : Std.Symm (Apart f) := ⟨fun _ _ h => h.symm⟩

/-- Paths of the files of a directory. -/
structure IsTree (f : Flavour) (paths : List (List (List Char))) : Prop where
  ne_nil : ∀ path ∈ paths, path ≠ []
  name : ∀ path ∈ paths, ∀ x ∈ path, FileName f x
  apart : paths.Pairwise (Apart f)

/-- The paths of the kit when the manifest is written. -/
def kitPaths (files : Files) : List (List (List Char)) :=
  [manifestName] :: (files.map Prod.fst).filter (· ≠ [manifestName])

/-- Files of a kit that is built on a host of flavour `w` and started on one of flavour `v`. -/
structure Shippable (w v : Flavour) (sha256 : Bytes → List Char) (files : Files) : Prop where
  digest : ∀ data, isDigest (sha256 data) = true
  ascii : ∀ file ∈ files, ∀ name ∈ file.1, ∀ c ∈ name, c.toNat < 0x80 ∧ isLineBoundary c = false
  built : IsTree w (kitPaths files)
  started : IsTree v (kitPaths files)
  listed : ∃ file ∈ files, file.1.getLast? ≠ some manifestName

/-! ### Text files -/

section

variable {f : Flavour} {text left right : List Char} {lines : List (List Char)}

theorem encodeStrict_of_lt (h : ∀ c ∈ text, c.toNat < 0x80) :
    encodeStrict text = .ok (text.map fun c => BitVec.ofNat 8 c.toNat) := by
  have hfind : text.findIdx? (0x80 ≤ ·.toNat) = none := by
    rw [List.findIdx?_eq_none_iff]
    intro c hc
    have := h c hc
    simpa using this
  rw [encodeStrict, hfind]
  rfl

theorem decodeStrict_encode (h : ∀ c ∈ text, c.toNat < 0x80) :
    decodeStrict (text.map fun c => BitVec.ofNat 8 c.toNat) = .ok text := by
  have hbyte {c : Char} (hc : c.toNat < 0x80) : (BitVec.ofNat 8 c.toNat).toNat = c.toNat := by
    rw [BitVec.toNat_ofNat]
    omega
  rw [decodeStrict_of_lt, List.map_map]
  · have hc : ∀ c ∈ text, ((fun b : Byte => Char.ofNat b.toNat) ∘ fun c : Char => BitVec.ofNat 8 c.toNat) c = id c := by
      intro c hc
      rw [Function.comp_apply, hbyte (h c hc), Char.ofNat_toNat, id]
    rw [List.map_congr_left hc, List.map_id]
  · intro b hb
    obtain ⟨c, hc, rfl⟩ := List.mem_map.mp hb
    rw [BitVec.lt_def, hbyte (h c hc)]
    exact h c hc

theorem universalNewlines_lineSep (h : '\r' ∉ text) :
    universalNewlines (text.flatMap fun c => if c = '\n' then lineSep f else [c]) = text := by
  induction text with
  | nil => rfl
  | cons c text ih =>
    have ih := ih fun hmem => h (List.mem_cons_of_mem _ hmem)
    have hc : c ≠ '\r' := fun hc => h (hc ▸ List.mem_cons_self)
    rw [List.flatMap_cons]
    by_cases hn : c = '\n'
    · rw [if_pos hn, hn]
      cases f with
      | posix => simpa [lineSep, universalNewlines] using ih
      | windows => simpa [lineSep, universalNewlines] using ih
    · rw [if_neg hn]
      simpa [universalNewlines, hc] using ih

/-- A text of ASCII characters is read as it was written. -/
theorem readText_writeText (hascii : ∀ c ∈ text, c.toNat < 0x80) (hcr : '\r' ∉ text) :
    ∃ data, writeText f text = .ok data ∧ readText data = .ok text := by
  have hsep : ∀ c ∈ text.flatMap fun c => if c = '\n' then lineSep f else [c], c.toNat < 0x80 := by
    intro c hc
    obtain ⟨a, ha, hc⟩ := List.mem_flatMap.mp hc
    by_cases hn : a = '\n'
    · rw [if_pos hn] at hc
      have hends : c = '\r' ∨ c = '\n' := by
        cases f with
        | posix => exact .inr (List.mem_singleton.mp hc)
        | windows => simpa [lineSep] using hc
      rcases hends with rfl | rfl
      · decide
      · decide
    · rw [if_neg hn, List.mem_singleton] at hc
      exact hc ▸ hascii a ha
  refine ⟨_, encodeStrict_of_lt hsep, ?_⟩
  rw [readText, decodeStrict_encode hsep]
  exact congrArg Except.ok (universalNewlines_lineSep hcr)

theorem splitOnP_lines (h : ∀ line ∈ lines, ∀ c ∈ line, isLineBoundary c = false) :
    (lines.flatMap (· ++ ['\n'])).splitOnP isLineBoundary = lines ++ [[]] := by
  induction lines with
  | nil => rfl
  | cons line lines ih =>
    have hcut : (line ++ '\n' :: lines.flatMap (· ++ ['\n'])).splitOnP isLineBoundary =
        line :: (lines.flatMap (· ++ ['\n'])).splitOnP isLineBoundary :=
      List.splitOnP_append_cons_of_forall_mem (h line List.mem_cons_self) _ (by decide) _
    rw [List.flatMap_cons, List.append_assoc, List.singleton_append, hcut,
      ih fun l hl => h l (List.mem_cons_of_mem _ hl), List.cons_append]

theorem intercalate_newline (hne : lines ≠ []) :
    ['\n'].intercalate lines ++ ['\n'] = lines.flatMap (· ++ ['\n']) := by
  induction lines with
  | nil => exact absurd rfl hne
  | cons line lines ih =>
    cases lines with
    | nil => simp
    | cons line' lines =>
      rw [List.intercalate_cons_cons, List.append_assoc, ih (List.cons_ne_nil _ _)]
      rfl

/-- Lines are read back from their text. -/
theorem splitlines_intercalate (hne : lines ≠ []) (h : ∀ line ∈ lines, ∀ c ∈ line, isLineBoundary c = false) :
    splitlines (['\n'].intercalate lines ++ ['\n']) = lines := by
  rw [intercalate_newline hne, splitlines, splitOnP_lines h]
  simp

theorem splitDouble_append (h : ' ' ∉ left) : splitDouble (left ++ ' ' :: ' ' :: right) = some (left, right) := by
  induction left with
  | nil => rfl
  | cons c left ih =>
    have hc : c ≠ ' ' := fun hc => h (hc ▸ List.mem_cons_self)
    have ih := ih fun hmem => h (List.mem_cons_of_mem _ hmem)
    simp [splitDouble, hc, ih]

theorem isDigest_char {c : Char} (h : isDigest text = true) (hc : c ∈ text) : 48 ≤ c.toNat ∧ c.toNat ≤ 102 := by
  have hclass : ('0' ≤ c ∧ c ≤ '9') ∨ ('a' ≤ c ∧ c ≤ 'f') := by
    have hall := (Bool.and_eq_true_iff.mp h).2
    simpa using List.all_eq_true.mp hall c hc
  have hle {a b : Char} (h : a ≤ b) : a.toNat ≤ b.toNat := UInt32.le_iff_toNat_le.mp (Char.le_def.mp h)
  rcases hclass with ⟨hlow, hhigh⟩ | ⟨hlow, hhigh⟩
  · have h1 : 48 ≤ c.toNat := hle hlow
    have h2 : c.toNat ≤ 57 := hle hhigh
    omega
  · have h1 : 97 ≤ c.toNat := hle hlow
    have h2 : c.toNat ≤ 102 := hle hhigh
    omega

theorem space_notMem_of_isDigest (h : isDigest text = true) : ' ' ∉ text := by
  intro hmem
  exact absurd (isDigest_char h hmem).1 (by decide)

theorem lineChar_of_isDigest {c : Char} (h : isDigest text = true) (hc : c ∈ text) :
    c.toNat < 0x80 ∧ isLineBoundary c = false := by
  obtain ⟨hlow, hhigh⟩ := isDigest_char h hc
  refine ⟨by omega, ?_⟩
  simp only [isLineBoundary, decide_eq_false_iff_not, List.mem_cons, List.not_mem_nil, or_false]
  omega

end

/-! ### The lines of a kit -/

section

variable {w v : Flavour} {sha256 : Bytes → List Char} {files : Files} {file : List (List Char) × Bytes}

theorem mem_listedFiles : file ∈ listedFiles w files ↔ file ∈ files ∧ file.1.getLast? ≠ some manifestName := by
  simp [listedFiles]

theorem mem_paths_of_listed (hfile : file ∈ listedFiles w files) :
    file.1 ∈ (files.map Prod.fst).filter (· ≠ [manifestName]) := by
  obtain ⟨hmem, hname⟩ := mem_listedFiles.mp hfile
  refine List.mem_filter.mpr ⟨List.mem_map_of_mem hmem, ?_⟩
  have : file.1 ≠ [manifestName] := by
    intro heq
    exact hname (by rw [heq]; rfl)
  simpa using this

theorem IsTree.ne_nil_of_listed (h : IsTree v (kitPaths files)) (hfile : file ∈ listedFiles w files) :
    file.1 ≠ [] ∧ ∀ x ∈ file.1, FileName v x := by
  have hpath : file.1 ∈ kitPaths files := List.mem_cons_of_mem _ (mem_paths_of_listed hfile)
  exact ⟨h.ne_nil _ hpath, h.name _ hpath⟩

/-- A line is read back as the digest and the path of its file. -/
theorem Shippable.splitDouble_checksumLine (h : Shippable w v sha256 files) (hfile : file ∈ listedFiles w files) :
    ∃ text, splitDouble (checksumLine w sha256 file) = some (sha256 file.2, text) ∧
      parse v text = relativePath file.1 := by
  obtain ⟨hne, hbuilt⟩ := h.built.ne_nil_of_listed hfile
  refine ⟨['/'].intercalate file.1, ?_, parse_names hne (h.started.ne_nil_of_listed hfile).2⟩
  have hposix : asPosix w (relativePath file.1) = ['/'].intercalate file.1 :=
    asPosix_names hne fun x hx => (hbuilt x hx).toPlain
  rw [checksumLine, hposix, List.append_assoc]
  exact splitDouble_append (space_notMem_of_isDigest (h.digest file.2))

theorem Shippable.lineChar (h : Shippable w v sha256 files) (hfile : file ∈ listedFiles w files) :
    ∀ c ∈ checksumLine w sha256 file, c.toNat < 0x80 ∧ isLineBoundary c = false := by
  obtain ⟨hne, hbuilt⟩ := h.built.ne_nil_of_listed hfile
  have hposix : asPosix w (relativePath file.1) = ['/'].intercalate file.1 :=
    asPosix_names hne fun x hx => (hbuilt x hx).toPlain
  intro c hc
  rw [checksumLine, hposix] at hc
  rcases List.mem_append.mp hc with hc | hc
  · rcases List.mem_append.mp hc with hc | hc
    · exact lineChar_of_isDigest (h.digest file.2) hc
    · have hspace : c = ' ' := by simpa using hc
      rw [hspace]
      decide
  · rcases mem_intercalate_sep hc with rfl | ⟨x, hx, hc⟩
    · decide
    · exact h.ascii file (mem_listedFiles.mp hfile).1 x hx c hc

/-- The manifest is written, and its lines are read back. -/
theorem Shippable.readText_checksumFile (h : Shippable w v sha256 files) :
    ∃ data text, checksumFile w sha256 files = .ok data ∧ readText data = .ok text ∧
      splitlines text = (listedFiles w files).map (checksumLine w sha256) := by
  have hline : ∀ line ∈ (listedFiles w files).map (checksumLine w sha256), ∀ c ∈ line,
      c.toNat < 0x80 ∧ isLineBoundary c = false := by
    intro line hl
    obtain ⟨file, hfile, rfl⟩ := List.mem_map.mp hl
    exact h.lineChar hfile
  have hne : (listedFiles w files).map (checksumLine w sha256) ≠ [] := by
    obtain ⟨file, hfile, hname⟩ := h.listed
    have := List.mem_map_of_mem (f := checksumLine w sha256) (mem_listedFiles (w := w).mpr ⟨hfile, hname⟩)
    exact List.ne_nil_of_mem this
  have hchar : ∀ c ∈ ['\n'].intercalate ((listedFiles w files).map (checksumLine w sha256)) ++ ['\n'],
      c.toNat < 0x80 ∧ c ≠ '\r' := by
    intro c hc
    have hbreak : '\n'.toNat < 0x80 ∧ '\n' ≠ '\r' := by decide
    rcases List.mem_append.mp hc with hc | hc
    · rcases mem_intercalate_sep hc with rfl | ⟨line, hl, hc⟩
      · exact hbreak
      · obtain ⟨hascii, hb⟩ := hline line hl c hc
        refine ⟨hascii, ?_⟩
        rintro rfl
        exact absurd hb (by decide)
    · rw [List.mem_singleton.mp hc]
      exact hbreak
  obtain ⟨data, hwrite, hread⟩ := readText_writeText (f := w) (fun c hc => (hchar c hc).1) fun hc => (hchar _ hc).2 rfl
  exact ⟨data, _, hwrite, hread, splitlines_intercalate hne fun line hl c hc => (hline line hl c hc).2⟩

end

end ShadowMsm.Host

import Mathlib.Data.List.TakeDrop
import Mathlib.Data.Nat.Notation

/-!
# Pure paths

The paths of `pathlib` of Python 3.9 as values, for both flavours.  A text is parsed into a drive, a root and names;
`/` parses the parts of its second argument once more before it joins them.

`Inside` is the relation of `relative_to`, without `..` in what is left.  Where a relative path ends up under `/` is
decided by the last of its parts that has a drive of its own, or by its root (`inside_div_iff`).
-/

/-- A parsed path. -/
structure PurePath where
  drv : List Char
  root : List Char
  /-- the parts after the anchor -/
  names : List (List Char)
  deriving DecidableEq, Repr

namespace PurePath

inductive Flavour
  | posix
  | windows
  deriving DecidableEq, Repr

namespace Flavour

def sep : Flavour → Char
  | posix => '/'
  | windows => '\\'

/-- `part.replace(altsep, sep)` where the flavour has an `altsep` -/
def normSep : Flavour → List Char → List Char
  | posix, part => part
  | windows, part => part.map fun c => if c = '/' then '\\' else c

/-- `casefold`; the lower case of the ASCII letters only, and no drive that a text of ASCII characters has without a
root is the lower case of others. -/
def casefold : Flavour → List Char → List Char
  | posix, part => part
  | windows, part => part.map Char.toLower

end Flavour

variable {f : Flavour}

/-! ### Parts -/

def anchor (p : PurePath) : List Char := p.drv ++ p.root

def parts (p : PurePath) : List (List Char) := if p.anchor = [] then p.names else p.anchor :: p.names

/-- The parts that two paths are compared by. -/
def cparts (f : Flavour) (p : PurePath) : List (List Char) := p.parts.map f.casefold

def isAbsolute : Flavour → PurePath → Bool
  | .posix, p => p.root ≠ []
  | .windows, p => p.root ≠ [] && p.drv ≠ []

def name (p : PurePath) : List Char := p.names.getLast?.getD []

def parent (p : PurePath) : PurePath := { p with names := p.names.dropLast }

/-- `str(path)` -/
def str (f : Flavour) (p : PurePath) : List Char :=
  if p.parts = [] then ['.'] else p.anchor ++ [f.sep].intercalate p.names

def asPosix (f : Flavour) (p : PurePath) : List Char := (p.str f).map fun c => if c = f.sep then '/' else c

/-! ### Parsing -/

def extNamespacePrefix : List Char := ['\\', '\\', '?', '\\']

/-- `_split_extended_path` -/
def splitExtendedPath (s : List Char) : List Char × List Char :=
  if extNamespacePrefix <+: s then
    if ['U', 'N', 'C', '\\'] <+: s.drop 4 then (extNamespacePrefix ++ ['U', 'N', 'C'], '\\' :: s.drop 7)
    else (extNamespacePrefix, s.drop 4)
  else ([], s)

/-- `\\machine\share` at the start of a text, and what comes after the separator behind it -/
def splitUnc (part : List Char) : Option (List Char × List Char) :=
  match part with
  | '\\' :: '\\' :: rest =>
    match rest.span (· ≠ '\\') with
    | ([], _) => none
    | (_, []) => none
    | (machine, _ :: rest') =>
      match rest'.span (· ≠ '\\') with
      | ([], _ :: _) => none
      | (share, rest'') => some ('\\' :: '\\' :: (machine ++ '\\' :: share), rest''.tail)
  | _ => none

/-- The drive letter and its colon at the start of a text. -/
def splitLetter (part : List Char) : List Char × List Char :=
  match part with
  | letter :: ':' :: rest => if letter.isAlpha then ([letter, ':'], rest) else ([], part)
  | _ => ([], part)

/-- The root, and the text without the separators at its start. -/
def splitSeps (sep : Char) (part : List Char) : List Char × List Char :=
  if part.head? = some sep then ([sep], part.dropWhile (· = sep)) else ([], part)

def splitrootWindows (part : List Char) : List Char × List Char × List Char :=
  let (pre, part) := splitExtendedPath part
  match splitUnc part with
  | some (drv, rel) => (if pre = [] then drv else pre ++ drv.tail, ['\\'], rel)
  | none =>
    let (drv, part) := splitLetter part
    let (root, rel) := splitSeps '\\' part
    (pre ++ drv, root, rel)

def splitrootPosix (part : List Char) : List Char × List Char × List Char :=
  let (root, rel) := splitSeps '/' part
  (([] : List Char), if part.length - rel.length = 2 then ['/', '/'] else root, rel)

/-- `splitroot`: drive, root and the rest of a part -/
def splitroot : Flavour → List Char → List Char × List Char × List Char
  | .posix, part => splitrootPosix part
  | .windows, part => splitrootWindows part

/-- The drive of a part. -/
def driveOf (f : Flavour) (part : List Char) : List Char := (splitroot f (f.normSep part)).1

/-- What a part has after its drive and root. -/
def restOf (f : Flavour) (part : List Char) : List Char := (splitroot f (f.normSep part)).2.2

/-- The names in the rest of a part. -/
def splitNames (f : Flavour) (rel : List Char) : List (List Char) :=
  (rel.splitOn f.sep).filter fun x => x ≠ [] ∧ x ≠ ['.']

/-- The loop of `parse_parts`, over the parts from the last one.  An empty part has no drive, root or name. -/
def parseReversed (f : Flavour) : List (List Char) → PurePath
  | [] => ⟨[], [], []⟩
  | part :: before =>
    let (drv, root, rel) := splitroot f (f.normSep part)
    if drv ≠ [] then ⟨drv, root, splitNames f rel⟩
    -- without a drive of its own, a root takes the nearest one before it
    else if root ≠ [] then ⟨((before.map (driveOf f)).find? (· ≠ [])).getD [], root, splitNames f rel⟩
    else { parseReversed f before with names := (parseReversed f before).names ++ splitNames f rel }

def parseParts (f : Flavour) (parts : List (List Char)) : PurePath := parseReversed f parts.reverse

/-- `Path(text)` -/
def parse (f : Flavour) (text : List Char) : PurePath := parseParts f [text]

/-! ### Joining -/

def joinParsedParts (f : Flavour) (p q : PurePath) : PurePath :=
  if q.root ≠ [] then
    if q.drv = [] ∧ p.drv ≠ [] then ⟨p.drv, q.root, q.names⟩ else q
  else if q.drv ≠ [] then
    if f.casefold q.drv = f.casefold p.drv then ⟨p.drv, p.root, p.names ++ q.names⟩ else q
  else ⟨p.drv, p.root, p.names ++ q.names⟩

/-- `p / q` -/
def div (f : Flavour) (p q : PurePath) : PurePath := joinParsedParts f p (parseParts f q.parts)

/-- `p / text` -/
def divText (f : Flavour) (p : PurePath) (text : List Char) : PurePath := joinParsedParts f p (parse f text)

/-! ### Inside a directory -/

/-- `p` is under `base` as `relative_to` has it, and no part goes up again. -/
def Inside (f : Flavour) (base p : PurePath) : Prop :=
  f.casefold p.drv = f.casefold base.drv ∧ p.root = base.root ∧
    ∃ rest, p.names.map f.casefold = base.names.map f.casefold ++ rest ∧ ['.', '.'] ∉ rest

/-- Where `base / r` ends up is decided by the last part of `r` with a drive: the drive has to be that of `base`, and
what the part has after it must not go up.  Without a drive in `r`, a root takes `r` to the top. -/
def Stays (f : Flavour) (base r : PurePath) : Prop :=
  match r.parts.reverse.find? fun part => driveOf f part ≠ [] with
  | some part => f.casefold (driveOf f part) = f.casefold base.drv ∧ restOf f part ≠ ['.', '.']
  | none => r.root = [] ∨ r.root = base.root ∧ base.names.map f.casefold <+: r.names.map f.casefold

instance (base r : PurePath) : Decidable (Stays f base r) := by
  unfold Stays
  split <;> infer_instance

/-! ### Splitting a part -/

section

variable {s rel drv root : List Char} {c : Char}

theorem splitExtendedPath_cases (s : List Char) : splitExtendedPath s = ([], s) ∨
    (∃ rest, s = extNamespacePrefix ++ rest ∧ splitExtendedPath s = (extNamespacePrefix, rest)) ∨
    ∃ rest, s = extNamespacePrefix ++ 'U' :: 'N' :: 'C' :: '\\' :: rest ∧
      splitExtendedPath s = (extNamespacePrefix ++ ['U', 'N', 'C'], '\\' :: '\\' :: rest) := by
  unfold splitExtendedPath
  by_cases h : extNamespacePrefix <+: s
  · obtain ⟨t, rfl⟩ := h
    have hdrop : (extNamespacePrefix ++ t).drop 4 = t := rfl
    rw [if_pos (List.prefix_append _ _), hdrop]
    by_cases ht : ['U', 'N', 'C', '\\'] <+: t
    · obtain ⟨rest, rfl⟩ := ht
      rw [if_pos (List.prefix_append _ _)]
      exact .inr (.inr ⟨rest, rfl, rfl⟩)
    · rw [if_neg ht]
      exact .inr (.inl ⟨t, rfl, rfl⟩)
  · rw [if_neg h]
    exact .inl rfl

theorem splitExtendedPath_of_ne {a : Char} (h : a ≠ '\\') : splitExtendedPath (a :: s) = ([], a :: s) := by
  unfold splitExtendedPath
  rw [if_neg]
  intro hfront
  exact h (List.cons_prefix_cons.mp hfront).1.symm

theorem mem_splitExtendedPath (h : c ∈ (splitExtendedPath s).2) : c ∈ s := by
  rcases splitExtendedPath_cases s with hs | ⟨rest, rfl, hs⟩ | ⟨rest, rfl, hs⟩
  · rwa [hs] at h
  · rw [hs] at h
    exact List.mem_append_right _ h
  · rw [hs] at h
    apply List.mem_append_right
    simp only [List.mem_cons] at h ⊢
    tauto

private theorem append_of_span {p : Char → Bool} {l u v : List Char} (h : l.span p = (u, v)) : l = u ++ v := by
  rw [List.span_eq_takeWhile_dropWhile] at h
  rw [← (Prod.mk.inj h).1, ← (Prod.mk.inj h).2, List.takeWhile_append_dropWhile]

theorem mem_splitUnc (h : splitUnc s = some (drv, rel)) (hc : c ∈ rel) : c ∈ s := by
  unfold splitUnc at h
  split at h
  · rename_i rest
    split at h
    · cases h
    · cases h
    · rename_i machine x rest' _ hspan
      split at h
      · cases h
      · rename_i share rest'' _ hspan'
        have hmem : c ∈ rest'' := by
          rw [← (Prod.mk.inj (Option.some.inj h)).2] at hc
          exact List.mem_of_mem_tail hc
        rw [append_of_span hspan, append_of_span hspan']
        simp [hmem]
  · cases h

theorem splitLetter_cases (s : List Char) : splitLetter s = ([], s) ∨
    ∃ letter rest, letter.isAlpha = true ∧ s = letter :: ':' :: rest ∧ splitLetter s = ([letter, ':'], rest) := by
  unfold splitLetter
  split
  · rename_i letter rest
    by_cases h : letter.isAlpha = true
    · rw [if_pos h]
      exact .inr ⟨letter, rest, h, rfl, rfl⟩
    · rw [if_neg h]
      exact .inl rfl
  · exact .inl rfl

theorem mem_splitLetter (h : c ∈ (splitLetter s).2) : c ∈ s := by
  rcases splitLetter_cases s with hs | ⟨letter, rest, -, rfl, hs⟩
  · rwa [hs] at h
  · rw [hs] at h
    simp [h]

theorem splitSeps_fst (sep : Char) (s : List Char) : (splitSeps sep s).1 = [] ∨ (splitSeps sep s).1 = [sep] := by
  unfold splitSeps
  split_ifs
  · exact .inr rfl
  · exact .inl rfl

theorem mem_splitSeps {sep : Char} (h : c ∈ (splitSeps sep s).2) : c ∈ s := by
  unfold splitSeps at h
  split_ifs at h
  · exact (List.dropWhile_sublist _).mem h
  · exact h

theorem mem_splitroot (h : c ∈ (splitroot f s).2.2) : c ∈ s := by
  cases f with
  | posix => exact mem_splitSeps h
  | windows =>
    simp only [splitroot, splitrootWindows] at h
    apply mem_splitExtendedPath
    generalize (splitExtendedPath s).2 = part at h ⊢
    split at h
    · rename_i heq
      exact mem_splitUnc heq h
    · exact mem_splitLetter (mem_splitSeps h)

/-! ### Names -/

/-- `normSep` has nothing to do. -/
theorem normSep_eq_self (h : f = .windows → '/' ∉ s) : f.normSep s = s := by
  cases f with
  | posix => rfl
  | windows =>
    have hmap : ∀ c ∈ s, (if c = '/' then '\\' else c) = id c := by
      intro c hc
      by_cases hslash : c = '/'
      · subst hslash
        exact absurd hc (h rfl)
      · rw [if_neg hslash]
        rfl
    rw [Flavour.normSep, List.map_congr_left hmap, List.map_id]

theorem slash_notMem_normSep (s : List Char) : '/' ∉ Flavour.windows.normSep s := by
  intro h
  obtain ⟨c, -, hc⟩ := List.mem_map.mp h
  split_ifs at hc with h'
  · exact absurd hc (by decide)
  · exact h' hc

/-- A piece of a split is a piece of the text, without the separator. -/
theorem of_mem_splitOn {x : List Char} {sep : Char} (h : x ∈ s.splitOn sep) : sep ∉ x ∧ ∀ c ∈ x, c ∈ s := by
  induction s generalizing x with
  | nil =>
    rw [List.splitOn_nil, List.mem_singleton] at h
    simp [h]
  | cons a s ih =>
    rw [List.splitOn_cons_eq_if_modifyHead] at h
    obtain ⟨y, ys, hs⟩ := List.exists_cons_of_ne_nil (List.splitOn_ne_nil sep s)
    rw [hs] at ih h
    by_cases ha : a = sep
    · rw [if_pos (by simpa using ha)] at h
      rcases List.mem_cons.mp h with rfl | h
      · exact ⟨List.not_mem_nil, nofun⟩
      · exact ⟨(ih h).1, fun c hc => List.mem_cons_of_mem _ ((ih h).2 c hc)⟩
    · rw [if_neg (by simpa using ha), List.modifyHead_cons] at h
      rcases List.mem_cons.mp h with rfl | h
      · obtain ⟨hsep, hmem⟩ := ih List.mem_cons_self
        refine ⟨by simp [hsep, Ne.symm ha], ?_⟩
        intro c hc
        rcases List.mem_cons.mp hc with rfl | hc
        · exact List.mem_cons_self
        · exact List.mem_cons_of_mem _ (hmem c hc)
      · obtain ⟨hsep, hmem⟩ := ih (List.mem_cons_of_mem _ h)
        exact ⟨hsep, fun c hc => List.mem_cons_of_mem _ (hmem c hc)⟩

/-- A part that is one name of its flavour. -/
structure Plain (f : Flavour) (x : List Char) : Prop where
  ne_nil : x ≠ []
  ne_dot : x ≠ ['.']
  sep : f.sep ∉ x
  altsep : f = .windows → '/' ∉ x

theorem plain_of_mem_splitNames {x : List Char} (hrel : f = .windows → '/' ∉ rel) (h : x ∈ splitNames f rel) :
    Plain f x := by
  obtain ⟨hx, hne⟩ := List.mem_filter.mp h
  obtain ⟨hnil, hdot⟩ := of_decide_eq_true hne
  obtain ⟨hsep, hmem⟩ := of_mem_splitOn hx
  exact ⟨hnil, hdot, hsep, fun hf hslash => hrel hf (hmem _ hslash)⟩

/-- What a part without separators gives. -/
theorem splitNames_of_notMem (h : f.sep ∉ s) : splitNames f s = if s = [] ∨ s = ['.'] then [] else [s] := by
  unfold splitNames
  rw [List.splitOn_eq_singleton h]
  by_cases hs : s = [] ∨ s = ['.']
  · rw [if_pos hs]
    rcases hs with rfl | rfl <;> rfl
  · rw [if_neg hs]
    rw [not_or] at hs
    simp [hs.1, hs.2]

theorem splitUnc_of_notMem (h : '\\' ∉ s) : splitUnc s = none := by
  unfold splitUnc
  split
  · simp at h
  · rfl

theorem splitSeps_of_notMem {sep : Char} (h : sep ∉ s) : splitSeps sep s = ([], s) := by
  unfold splitSeps
  rw [if_neg]
  intro hhead
  exact h (List.mem_of_head? hhead)

/-- A part without separators has no root, and without a drive it is all rest. -/
theorem splitroot_of_notMem (h : f.sep ∉ s) :
    ∃ drv rel, splitroot f s = (drv, [], rel) ∧ (drv = [] → rel = s) := by
  cases f with
  | posix =>
    refine ⟨[], s, ?_, fun _ => rfl⟩
    have hseps : splitSeps '/' s = ([], s) := splitSeps_of_notMem h
    simp [splitroot, splitrootPosix, hseps]
  | windows =>
    have hext : splitExtendedPath s = ([], s) := by
      cases s with
      | nil => rfl
      | cons a s => exact splitExtendedPath_of_ne fun ha => h (ha ▸ List.mem_cons_self)
    have hseps : splitSeps '\\' (splitLetter s).2 = ([], (splitLetter s).2) :=
      splitSeps_of_notMem fun hmem => h (mem_splitLetter hmem)
    refine ⟨(splitLetter s).1, (splitLetter s).2, ?_, ?_⟩
    · simp [splitroot, splitrootWindows, hext, splitUnc_of_notMem h, hseps]
    · rcases splitLetter_cases s with hs | ⟨letter, rest, -, -, hs⟩
      · simp [hs]
      · simp [hs]

theorem splitUnc_drv (h : splitUnc s = some (drv, rel)) : ∃ a l, drv = '\\' :: a :: l := by
  unfold splitUnc at h
  split at h
  · split at h
    · cases h
    · cases h
    · split at h
      · cases h
      · exact ⟨_, _, (Prod.mk.inj (Option.some.inj h)).1.symm⟩
  · cases h

/-- The drives and roots of the parts of Windows that have not both. -/
inductive Lone : List Char → List Char → Prop
  | none : Lone [] []
  | root : Lone [] ['\\']
  | letter {letter : Char} (h : letter.isAlpha = true) : Lone [letter, ':'] []
  | extended : Lone extNamespacePrefix []
  | extendedLetter {letter : Char} (h : letter.isAlpha = true) : Lone (extNamespacePrefix ++ [letter, ':']) []

theorem lone_splitrootWindows (h : (splitrootWindows s).1 = [] ∨ (splitrootWindows s).2.1 = []) :
    Lone (splitrootWindows s).1 (splitrootWindows s).2.1 := by
  rcases hext : splitExtendedPath s with ⟨pre, part⟩
  simp only [splitrootWindows, hext] at h ⊢
  rcases hunc : splitUnc part with _ | ⟨drv, rel⟩
  · simp only [hunc] at h ⊢
    rcases splitExtendedPath_cases s with hs | ⟨rest, -, hs⟩ | ⟨rest, -, hs⟩
    · obtain ⟨rfl, -⟩ := Prod.mk.inj (hext.symm.trans hs)
      rcases splitLetter_cases part with hp | ⟨letter, rest, hletter, -, hp⟩
      · rcases splitSeps_fst '\\' part with hseps | hseps
        · simpa [hp, hseps] using Lone.none
        · simpa [hp, hseps] using Lone.root
      · have hseps : (splitSeps '\\' rest).1 = [] := by simpa [hp] using h
        simpa [hp, hseps] using Lone.letter hletter
    · obtain ⟨rfl, -⟩ := Prod.mk.inj (hext.symm.trans hs)
      have hseps : (splitSeps '\\' (splitLetter part).2).1 = [] := by simpa [extNamespacePrefix] using h
      rw [hseps]
      rcases splitLetter_cases part with hp | ⟨letter, rest', hletter, -, hp⟩
      · simpa [hp] using Lone.extended
      · simpa [hp] using Lone.extendedLetter hletter
    · obtain ⟨rfl, rfl⟩ := Prod.mk.inj (hext.symm.trans hs)
      simp [splitLetter, splitSeps, extNamespacePrefix] at h
  · obtain ⟨a, l, rfl⟩ := splitUnc_drv hunc
    by_cases hpre : pre = []
    · simp [hunc, hpre] at h
    · simp [hunc, hpre] at h

/-- Such a drive or root is split into itself. -/
theorem Lone.split (h : Lone drv root) : splitrootWindows (drv ++ root) = (drv, root, []) := by
  cases h with
  | none => decide
  | root => decide
  | @letter letter h =>
    have hne : letter ≠ '\\' := by
      rintro rfl
      exact absurd h (by decide)
    have hunc : splitUnc [letter, ':'] = .none := by simp [splitUnc, hne]
    simp [splitrootWindows, splitExtendedPath_of_ne hne, hunc, splitLetter, h, splitSeps]
  | extended => decide
  | @extendedLetter letter h =>
    have hne : letter ≠ '\\' := by
      rintro rfl
      exact absurd h (by decide)
    have hunc : splitUnc [letter, ':'] = .none := by simp [splitUnc, hne]
    have hext : splitExtendedPath (extNamespacePrefix ++ [letter, ':']) = (extNamespacePrefix, [letter, ':']) := by
      unfold splitExtendedPath
      rw [if_pos (List.prefix_append _ _), if_neg]
      · rfl
      · intro hfront
        have := hfront.length_le
        simp [extNamespacePrefix] at this
    simp [splitrootWindows, hext, hunc, splitLetter, h, splitSeps]

theorem Lone.slash_notMem (h : Lone drv root) : '/' ∉ drv ++ root := by
  have hne {letter : Char} (h : letter.isAlpha = true) : letter ≠ '/' := by
    rintro rfl
    exact absurd h (by decide)
  cases h with
  | none => decide
  | root => decide
  | letter h => simp [(hne h).symm]
  | extended => decide
  | extendedLetter h => simp [extNamespacePrefix, (hne h).symm]

/-- The anchor of a path that is not absolute is split into itself. -/
theorem splitroot_anchor (h : isAbsolute f ⟨(splitroot f s).1, (splitroot f s).2.1, []⟩ = false) :
    splitroot f (f.normSep ((splitroot f s).1 ++ (splitroot f s).2.1)) = ((splitroot f s).1, (splitroot f s).2.1, []) := by
  cases f with
  | posix =>
    have hroot : (splitroot .posix s).2.1 = [] := by simpa [isAbsolute] using h
    rw [hroot]
    rfl
  | windows =>
    have hlone : Lone (splitroot .windows s).1 (splitroot .windows s).2.1 := by
      apply lone_splitrootWindows
      by_cases hroot : (splitroot .windows s).2.1 = []
      · exact .inr hroot
      · have : (splitroot .windows s).1 = [] := by simpa [isAbsolute, hroot] using h
        exact .inl this
    rw [normSep_eq_self fun _ => hlone.slash_notMem]
    exact hlone.split

end

/-! ### Relative paths -/

/-- A path that is not absolute, as its text was parsed. -/
structure Relative (f : Flavour) (r : PurePath) : Prop where
  plain : ∀ x ∈ r.names, Plain f x
  anchor : splitroot f (f.normSep r.anchor) = (r.drv, r.root, [])
  lone : r.root = [] ∨ r.drv = []

theorem parse_eq (f : Flavour) (text : List Char) : parse f text = ⟨(splitroot f (f.normSep text)).1,
    (splitroot f (f.normSep text)).2.1, splitNames f (splitroot f (f.normSep text)).2.2⟩ := by
  rcases h : splitroot f (f.normSep text) with ⟨drv, root, rel⟩
  simp only [parse, parseParts, List.reverse_singleton, parseReversed, h]
  by_cases hdrv : drv = []
  · by_cases hroot : root = []
    · simp [hdrv, hroot]
    · simp [hdrv, hroot]
  · simp [hdrv]

theorem relative_parse {text : List Char} (h : isAbsolute f (parse f text) = false) : Relative f (parse f text) := by
  rw [parse_eq] at h ⊢
  refine ⟨?_, splitroot_anchor ?_, ?_⟩
  · intro x hx
    apply plain_of_mem_splitNames _ hx
    rintro rfl hslash
    exact slash_notMem_normSep text (mem_splitroot hslash)
  · cases f with
    | posix => exact h
    | windows => exact h
  · cases f with
    | posix => exact .inl (by simpa [isAbsolute] using h)
    | windows =>
      by_cases hroot : (splitroot .windows (Flavour.windows.normSep text)).2.1 = []
      · exact .inl hroot
      · exact .inr (by simpa [isAbsolute, hroot] using h)

/-- A name has no root, and without a drive it is all rest. -/
theorem Plain.splitroot_eq {x : List Char} (h : Plain f x) :
    splitroot f (f.normSep x) = (driveOf f x, [], restOf f x) ∧ (driveOf f x = [] → restOf f x = x) := by
  unfold driveOf restOf
  rw [normSep_eq_self h.altsep]
  obtain ⟨drv, rel, hsplit, hrel⟩ := splitroot_of_notMem h.sep
  rw [hsplit]
  exact ⟨rfl, hrel⟩

theorem Plain.splitNames_eq {x : List Char} (h : Plain f x) : splitNames f x = [x] := by
  rw [splitNames_of_notMem h.sep, if_neg]
  rintro (hx | hx)
  · exact h.ne_nil hx
  · exact h.ne_dot hx

theorem Relative.splitroot_eq {r : PurePath} (h : Relative f r) :
    splitroot f (f.normSep r.anchor) = (driveOf f r.anchor, r.root, restOf f r.anchor) ∧ driveOf f r.anchor = r.drv ∧
      restOf f r.anchor = [] := by
  unfold driveOf restOf
  rw [h.anchor]
  exact ⟨rfl, rfl, rfl⟩

/-- Names without a drive are put behind what comes before them. -/
theorem parseReversed_append {l t : List (List Char)} (hplain : ∀ x ∈ l, Plain f x) (hdrive : ∀ x ∈ l, driveOf f x = []) :
    parseReversed f (l ++ t) = { parseReversed f t with names := (parseReversed f t).names ++ l.reverse } := by
  induction l with
  | nil => simp
  | cons x l ih =>
    have hx := hplain x List.mem_cons_self
    obtain ⟨hsplit, hrest⟩ := hx.splitroot_eq
    have hdrv := hdrive x List.mem_cons_self
    rw [hdrv, hrest hdrv] at hsplit
    have ih := ih (fun y hy => hplain y (List.mem_cons_of_mem _ hy)) fun y hy => hdrive y (List.mem_cons_of_mem _ hy)
    simp [parseReversed, hsplit, hx.splitNames_eq, ih]

/-- A part with a drive and no root ends the search. -/
theorem parseReversed_drive {part : List Char} {t : List (List Char)} (hdrive : driveOf f part ≠ [])
    (hsplit : splitroot f (f.normSep part) = (driveOf f part, [], restOf f part)) :
    parseReversed f (part :: t) = ⟨driveOf f part, [], splitNames f (restOf f part)⟩ := by
  simp [parseReversed, hsplit, hdrive]

theorem reverse_parts (r : PurePath) :
    r.parts.reverse = r.names.reverse ++ if r.anchor = [] then [] else [r.anchor] := by
  unfold parts
  split_ifs with h
  · rw [List.append_nil]
  · rw [List.reverse_cons]

theorem mem_parts {r : PurePath} {x : List Char} (h : x ∈ r.names) : x ∈ r.parts := by
  unfold parts
  split_ifs
  · exact h
  · exact List.mem_cons_of_mem _ h

/-- A relative path with no drive in its names is parsed into itself. -/
theorem Relative.parseParts_parts {r : PurePath} (h : Relative f r) (hdrive : ∀ x ∈ r.names, driveOf f x = []) :
    parseParts f r.parts = r := by
  have hanchor : parseReversed f (if r.anchor = [] then [] else [r.anchor]) = ⟨r.drv, r.root, []⟩ := by
    by_cases hnil : r.anchor = []
    · obtain ⟨hdrv, hroot⟩ := List.append_eq_nil_iff.mp hnil
      rw [if_pos hnil, hdrv, hroot]
      rfl
    · rw [if_neg hnil]
      simp only [parseReversed, h.anchor, splitNames_of_notMem List.not_mem_nil]
      by_cases hdrv : r.drv = []
      · by_cases hroot : r.root = []
        · exact absurd (List.append_eq_nil_iff.mpr ⟨hdrv, hroot⟩) hnil
        · simp [hdrv, hroot]
      · simp [hdrv]
  rw [parseParts, reverse_parts, parseReversed_append (fun x hx => h.plain x (List.mem_reverse.mp hx))
    fun x hx => hdrive x (List.mem_reverse.mp hx), hanchor]
  simp

private theorem toLower_eq_dot {c : Char} : c.toLower = '.' ↔ c = '.' := by
  constructor
  · intro h
    unfold Char.toLower at h
    split_ifs at h with hc
    · have hval := congrArg (fun d : Char => d.val.toNat) h
      have hlow : 65 ≤ c.val.toNat := UInt32.le_iff_toNat_le.mp hc.1
      have hhigh : c.val.toNat ≤ 90 := UInt32.le_iff_toNat_le.mp hc.2
      have hadd : (c.val + 32).toNat = 46 := hval
      rw [UInt32.toNat_add] at hadd
      have : (32 : UInt32).toNat = 32 := rfl
      omega
    · exact h
  · rintro rfl
    rfl

theorem casefold_eq_dotdot {x : List Char} : f.casefold x = ['.', '.'] ↔ x = ['.', '.'] := by
  cases f with
  | posix => rfl
  | windows => simp [Flavour.casefold, List.map_eq_cons_iff, toLower_eq_dot]

theorem inside_append (base : PurePath) (names : List (List Char)) :
    Inside f base ⟨base.drv, base.root, base.names ++ names⟩ ↔ ['.', '.'] ∉ names := by
  have hmap : ['.', '.'] ∈ names.map f.casefold ↔ ['.', '.'] ∈ names := by simp [casefold_eq_dotdot]
  constructor
  · rintro ⟨-, -, rest, hrest, hdots⟩
    rw [List.map_append] at hrest
    rwa [← List.append_cancel_left hrest, hmap] at hdots
  · intro hdots
    exact ⟨rfl, rfl, names.map f.casefold, List.map_append, hmap.not.mpr hdots⟩

/-- Names from the top of a drive. -/
theorem inside_root {base : PurePath} {root : List Char} {names : List (List Char)} (hdots : ['.', '.'] ∉ names) :
    Inside f base ⟨base.drv, root, names⟩ ↔ root = base.root ∧ base.names.map f.casefold <+: names.map f.casefold := by
  constructor
  · rintro ⟨-, hroot, rest, hrest, -⟩
    exact ⟨hroot, rest, hrest.symm⟩
  · rintro ⟨hroot, rest, hrest⟩
    refine ⟨rfl, hroot, rest, hrest.symm, ?_⟩
    intro hmem
    have : ['.', '.'] ∈ names.map f.casefold := hrest ▸ List.mem_append_right _ hmem
    obtain ⟨x, hx, hfold⟩ := List.mem_map.mp this
    exact hdots (casefold_eq_dotdot.mp hfold ▸ hx)

/-- What the last part with a drive is, and what it leaves of the path. -/
theorem Relative.parseParts_drive {r : PurePath} (h : Relative f r) {part : List Char} {l t : List (List Char)}
    (hparts : r.parts.reverse = l ++ part :: t) (hdrive : driveOf f part ≠ []) (hnone : ∀ x ∈ l, driveOf f x = []) :
    f.sep ∉ restOf f part ∧ (∀ x ∈ l, x ∈ r.parts) ∧
      parseParts f r.parts = ⟨driveOf f part, [], splitNames f (restOf f part) ++ l.reverse⟩ := by
  have hmem {x : List Char} (hx : x ∈ l ++ part :: t) : x ∈ r.parts := by
    rw [← hparts] at hx
    exact List.mem_reverse.mp hx
  have hpart : splitroot f (f.normSep part) = (driveOf f part, [], restOf f part) ∧ f.sep ∉ restOf f part := by
    have hx : part ∈ r.names.reverse ++ if r.anchor = [] then [] else [r.anchor] := by
      rw [← reverse_parts, hparts]
      simp
    rcases List.mem_append.mp hx with hx | hx
    · have hplain := h.plain part (List.mem_reverse.mp hx)
      refine ⟨hplain.splitroot_eq.1, ?_⟩
      intro hsep
      have := mem_splitroot hsep
      rw [normSep_eq_self hplain.altsep] at this
      exact hplain.sep this
    · have heq : part = r.anchor := by
        split_ifs at hx
        · cases hx
        · exact List.mem_singleton.mp hx
      obtain ⟨hsplit, hdrv, hrest⟩ := h.splitroot_eq
      rw [heq] at hdrive ⊢
      have hroot : r.root = [] := h.lone.resolve_right (hdrv ▸ hdrive)
      rw [hroot] at hsplit
      exact ⟨hsplit, by simp [hrest]⟩
  have hl : ∀ x ∈ l, Plain f x := by
    have hlength : l.length ≤ r.names.reverse.length := by
      have := congrArg List.length hparts
      rw [reverse_parts] at this
      simp only [List.length_append, List.length_cons] at this
      split_ifs at this
      · simp only [List.length_nil] at this
        omega
      · simp only [List.length_singleton] at this
        omega
    have hfront : l <+: r.names.reverse := by
      apply List.prefix_of_prefix_length_le (List.prefix_append l (part :: t)) _ hlength
      rw [← hparts, reverse_parts]
      exact List.prefix_append _ _
    intro x hx
    exact h.plain x (List.mem_reverse.mp (hfront.subset hx))
  refine ⟨hpart.2, fun x hx => hmem (List.mem_append_left _ hx), ?_⟩
  rw [parseParts, hparts, parseReversed_append hl hnone, parseReversed_drive hdrive hpart.1]

/-- Where a relative path ends up. -/
theorem inside_div_iff {r : PurePath} (h : Relative f r) (hdots : ['.', '.'] ∉ r.parts) (base : PurePath) :
    Inside f base (div f base r) ↔ Stays f base r := by
  have hnames : ['.', '.'] ∉ r.names := fun hmem => hdots (mem_parts hmem)
  unfold Stays div
  rcases hfind : r.parts.reverse.find? fun part => driveOf f part ≠ [] with _ | part
  · have hdrive : ∀ x ∈ r.parts, driveOf f x = [] := by
      intro x hx
      simpa using List.find?_eq_none.mp hfind x (List.mem_reverse.mpr hx)
    have hdrv : r.drv = [] := by
      by_cases hanchor : r.anchor = []
      · exact (List.append_eq_nil_iff.mp hanchor).1
      · have : r.anchor ∈ r.parts := by simp [parts, hanchor]
        rw [← h.splitroot_eq.2.1, hdrive _ this]
    rw [h.parseParts_parts fun x hx => hdrive x (mem_parts hx)]
    by_cases hroot : r.root = []
    · simp [joinParsedParts, hdrv, hroot, inside_append, hnames]
    · have hjoin : joinParsedParts f base r = ⟨base.drv, r.root, r.names⟩ := by
        by_cases hbase : base.drv = []
        · rw [joinParsedParts, if_pos hroot, if_neg (by simp [hbase]), hbase, ← hdrv]
        · simp [joinParsedParts, hroot, hbase, hdrv]
      rw [hjoin, inside_root hnames]
      simp [hroot]
  · obtain ⟨hpart, l, t, hparts, hnone⟩ := List.find?_eq_some_iff_append.mp hfind
    have hdrive : driveOf f part ≠ [] := by simpa using hpart
    obtain ⟨hsep, hl, hparse⟩ := h.parseParts_drive hparts hdrive fun x hx => by simpa using hnone x hx
    have hrest : ['.', '.'] ∉ splitNames f (restOf f part) ++ l.reverse ↔ restOf f part ≠ ['.', '.'] := by
      rw [List.mem_append, not_or, splitNames_of_notMem hsep]
      have hl : ['.', '.'] ∉ l.reverse := fun hmem => hdots (hl _ (List.mem_reverse.mp hmem))
      split_ifs with hempty
      · have : restOf f part ≠ ['.', '.'] := by
          rcases hempty with h | h <;> simp [h]
        simp [hl, this]
      · rw [List.mem_singleton, eq_comm]
        exact and_iff_left hl
    rw [hparse]
    by_cases hfold : f.casefold (driveOf f part) = f.casefold base.drv
    · simp [joinParsedParts, hdrive, hfold, inside_append, ← hrest]
    · simp [joinParsedParts, hdrive, hfold, Inside]

/-- A POSIX path that is not absolute stays. -/
theorem stays_posix {r : PurePath} (h : isAbsolute .posix r = false) (base : PurePath) : Stays .posix base r := by
  have hroot : r.root = [] := by simpa [isAbsolute] using h
  have hfind : r.parts.reverse.find? (fun part => driveOf .posix part ≠ []) = none := by
    apply List.find?_eq_none.mpr
    intro part _
    simp [driveOf, splitroot, splitrootPosix]
  unfold Stays
  rw [hfind]
  exact .inl hroot

/-! ### Names of files -/

/-- A name that a file or a directory can have. -/
structure FileName (f : Flavour) (x : List Char) : Prop extends Plain f x where
  ne_dots : x ≠ ['.', '.']
  colon : f = .windows → ':' ∉ x

instance (x : List Char) : Decidable (FileName f x) :=
  decidable_of_iff (x ≠ [] ∧ x ≠ ['.'] ∧ f.sep ∉ x ∧ (f = .windows → '/' ∉ x) ∧ x ≠ ['.', '.'] ∧ (f = .windows → ':' ∉ x))
    ⟨fun ⟨h1, h2, h3, h4, h5, h6⟩ => ⟨⟨h1, h2, h3, h4⟩, h5, h6⟩,
      fun h => ⟨h.ne_nil, h.ne_dot, h.sep, h.altsep, h.ne_dots, h.colon⟩⟩

section

variable {names : List (List Char)}

/-- A text that does not start with a separator and has no colon has no drive or root. -/
theorem splitroot_eq_self {s : List Char} (hhead : s.head? ≠ some f.sep) (hcolon : f = .windows → ':' ∉ s) :
    splitroot f s = ([], [], s) := by
  have hseps : splitSeps f.sep s = ([], s) := by rw [splitSeps, if_neg hhead]
  cases f with
  | posix =>
    have hseps : splitSeps '/' s = ([], s) := hseps
    simp [splitroot, splitrootPosix, hseps]
  | windows =>
    have hseps : splitSeps '\\' s = ([], s) := hseps
    have hext : splitExtendedPath s = ([], s) := by
      cases s with
      | nil => rfl
      | cons a s => exact splitExtendedPath_of_ne (by simpa [Flavour.sep] using hhead)
    have hunc : splitUnc s = none := by
      unfold splitUnc
      split
      · simp [Flavour.sep] at hhead
      · rfl
    have hletter : splitLetter s = ([], s) := by
      rcases splitLetter_cases s with h | ⟨letter, rest, -, rfl, -⟩
      · exact h
      · exact absurd (hcolon rfl) (by simp)
    simp [splitroot, splitrootWindows, hext, hunc, hletter, hseps]

theorem FileName.driveOf_eq {x : List Char} (h : FileName f x) : driveOf f x = [] := by
  rw [driveOf, normSep_eq_self h.altsep, splitroot_eq_self _ h.colon]
  exact fun hhead => h.sep (List.mem_of_head? hhead)

/-- Joining a path of names. -/
theorem div_names (h : ∀ x ∈ names, FileName f x) (p : PurePath) :
    div f p ⟨[], [], names⟩ = ⟨p.drv, p.root, p.names ++ names⟩ := by
  have hrel : Relative f ⟨[], [], names⟩ := by
    refine ⟨fun x hx => (h x hx).toPlain, ?_, .inl rfl⟩
    have hnil : splitroot f (f.normSep []) = ([], [], []) := by
      cases f with
      | posix => rfl
      | windows => decide
    exact hnil
  rw [div, hrel.parseParts_parts fun x hx => (h x hx).driveOf_eq]
  rfl

theorem parts_append (p : PurePath) (names : List (List Char)) :
    parts ⟨p.drv, p.root, p.names ++ names⟩ = p.parts ++ names := by
  unfold parts
  by_cases h : p.anchor = []
  · have h' : anchor ⟨p.drv, p.root, p.names ++ names⟩ = [] := h
    rw [if_pos h, if_pos h']
  · have h' : anchor ⟨p.drv, p.root, p.names ++ names⟩ ≠ [] := h
    rw [if_neg h, if_neg h']
    rfl

theorem cparts_append (f : Flavour) (p : PurePath) (names : List (List Char)) :
    cparts f ⟨p.drv, p.root, p.names ++ names⟩ = p.cparts f ++ names.map f.casefold := by
  rw [cparts, parts_append, List.map_append]
  rfl

theorem map_intercalate_sep (g : Char → Char) (sep : Char) :
    ([sep].intercalate names).map g = [g sep].intercalate (names.map fun x => x.map g) := by
  induction names with
  | nil => rfl
  | cons x names ih =>
    cases names with
    | nil => simp
    | cons y names => simpa using ih

theorem mem_intercalate_sep {sep c : Char} (h : c ∈ [sep].intercalate names) : c = sep ∨ ∃ x ∈ names, c ∈ x := by
  induction names with
  | nil => cases h
  | cons x names ih =>
    cases names with
    | nil => exact .inr ⟨x, List.mem_cons_self, by simpa using h⟩
    | cons y names =>
      rw [List.intercalate_cons_cons] at h
      rcases List.mem_append.mp h with h | h
      · rcases List.mem_append.mp h with h | h
        · exact .inr ⟨x, List.mem_cons_self, h⟩
        · exact .inl (List.mem_singleton.mp h)
      · rcases ih h with h | ⟨z, hz, hc⟩
        · exact .inl h
        · exact .inr ⟨z, List.mem_cons_of_mem _ hz, hc⟩

private theorem map_replace_eq_self {a b : Char} (h : ∀ x ∈ names, a ∉ x) :
    names.map (fun x => x.map fun c => if c = a then b else c) = names := by
  have hx : ∀ x ∈ names, (x.map fun c => if c = a then b else c) = id x := by
    intro x hx
    have hc : ∀ c ∈ x, (if c = a then b else c) = id c := by
      intro c hc
      by_cases hca : c = a
      · exact absurd (hca ▸ hc) (h x hx)
      · rw [if_neg hca, id]
    rw [List.map_congr_left hc, List.map_id, id]
  rw [List.map_congr_left hx, List.map_id]

/-- The text of a path of names, with `/`. -/
theorem asPosix_names (hne : names ≠ []) (h : ∀ x ∈ names, Plain f x) :
    asPosix f ⟨[], [], names⟩ = ['/'].intercalate names := by
  have hparts : parts ⟨[], [], names⟩ = names := if_pos rfl
  have hanchor : anchor ⟨[], [], names⟩ = [] := rfl
  rw [asPosix, str, hparts, if_neg hne, hanchor, List.nil_append, map_intercalate_sep, if_pos rfl,
    map_replace_eq_self fun x hx => (h x hx).sep]

/-- A path of names is read back from its text with `/`. -/
theorem parse_names (hne : names ≠ []) (h : ∀ x ∈ names, FileName f x) :
    parse f (['/'].intercalate names) = ⟨[], [], names⟩ := by
  have hnorm : f.normSep (['/'].intercalate names) = [f.sep].intercalate names := by
    cases f with
    | posix => rfl
    | windows =>
      rw [Flavour.normSep, map_intercalate_sep, if_pos rfl, map_replace_eq_self fun x hx => (h x hx).altsep rfl]
      rfl
  have hsplit : splitroot f ([f.sep].intercalate names) = ([], [], [f.sep].intercalate names) := by
    apply splitroot_eq_self
    · obtain ⟨x, rest, rfl⟩ := List.exists_cons_of_ne_nil hne
      have hx := h x List.mem_cons_self
      obtain ⟨a, x', rfl⟩ := List.exists_cons_of_ne_nil hx.ne_nil
      have hhead : ([f.sep].intercalate ((a :: x') :: rest)).head? = some a := by
        cases rest with
        | nil => simp
        | cons y rest => simp
      rw [hhead]
      intro ha
      exact hx.sep (Option.some.inj ha ▸ List.mem_cons_self)
    · rintro rfl hcolon
      rcases mem_intercalate_sep hcolon with hc | ⟨x, hx, hc⟩
      · exact absurd hc (by decide)
      · exact (h x hx).colon rfl hc
  have hnames : splitNames f ([f.sep].intercalate names) = names := by
    rw [splitNames, List.splitOn_intercalate _ (fun x hx => (h x hx).sep) hne, List.filter_eq_self]
    intro x hx
    exact decide_eq_true ⟨(h x hx).ne_nil, (h x hx).ne_dot⟩
  rw [parse_eq, hnorm, hsplit, hnames]

end

end PurePath

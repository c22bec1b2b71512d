import ShadowMsm.Lib.PurePath
import ShadowMsm.Lib.Traced
import ShadowMsm.Python

/-!
# The manifest of the kit

`verify_manifest` and `stage_and_relaunch` of `k3765_linux_shell.py`, for both flavours of paths.  A disk is what its
paths lead to; the messages that are only printed are left out.

A path that passes the checks of `verify_manifest` is not absolute and has no part `..`.  With POSIX paths it stays in
every directory that it is joined to.  With Windows paths a drive or a root in it can lead it out:
`manifest_paths_inside_iff` says when.
-/

namespace ShadowMsm.Host

open PurePath

/-- What the two functions have from their host. -/
structure KitHost where
  flavour : Flavour
  /-- `hashlib.sha256(data).hexdigest()` -/
  sha256 : Bytes → List Char
  /-- `KIT_ROOT` -/
  kitRoot : PurePath
  /-- `runtime_root()` -/
  runtimeRoot : PurePath
  /-- `datetime.now().strftime("%Y%m%d_%H%M%S")` -/
  now : List Char
  pid : Nat
  /-- `sys.executable` -/
  executable : List Char
  /-- `sys.argv[1:]` -/
  arguments : List (List Char)

inductive Node
  | directory
  | file (data : Bytes)
  deriving DecidableEq

/-- What there is on the disks, by the parts that paths are compared by. -/
abbrev Disk := List (List Char) → Option Node

/-- The contents of a file; none where `path.is_file()` is false. -/
def Disk.file (disk : Disk) (f : Flavour) (path : PurePath) : Option Bytes :=
  match disk (path.cparts f) with
  | some (.file data) => some data
  | _ => none

/-! ### Texts -/

/-- `SHA256SUMS` -/
def manifestName : List Char := ['S', 'H', 'A', '2', '5', '6', 'S', 'U', 'M', 'S']

/-- `path.read_text(encoding="ascii")` -/
def readText (data : Bytes) : Except Exn (List Char) := (decodeStrict data).map universalNewlines

/-- The two parts of `line.split("  ", 1)`; none where there is one part only. -/
def splitDouble : List Char → Option (List Char × List Char)
  | ' ' :: ' ' :: rest => some ([], rest)
  | c :: rest => (splitDouble rest).map fun (left, right) => (c :: left, right)
  | [] => none

/-- `re.fullmatch(r"[0-9a-f]{64}", text)` -/
def isDigest (text : List Char) : Bool :=
  text.length = 64 && text.all fun c => ('0' ≤ c && c ≤ '9') || ('a' ≤ c && c ≤ 'f')

/-! ### `verify_manifest` -/

/-- One line of the manifest. -/
def verifyLine (host : KitHost) (disk : Disk) (root : PurePath) (number : Nat) (raw : List Char) : Except Exn PurePath :=
  let malformed := Exn.runtimeError ("malformed SHA256SUMS line " ++ toString number ++ ": " ++ String.ofList (reprText raw))
  match splitDouble raw with
  | none => .error malformed
  | some (expected, text) =>
    if ¬ isDigest expected then .error malformed
    else
      let relative := parse host.flavour text
      let shown := String.ofList (relative.str host.flavour)
      if isAbsolute host.flavour relative ∨ ['.', '.'] ∈ relative.parts then
        .error (.runtimeError ("unsafe SHA256SUMS path on line " ++ toString number ++ ": " ++ shown))
      else
        match disk.file host.flavour (div host.flavour root relative) with
        | none => .error (.runtimeError ("missing distribution file: " ++ shown))
        | some data =>
          let actual := host.sha256 data
          if actual ≠ expected then
            .error (.runtimeError ("distribution checksum mismatch: " ++ shown ++ "\n  expected " ++
              String.ofList expected ++ "\n  actual   " ++ String.ofList actual))
          else .ok relative

/-- The loop over the lines, with the number of the first one. -/
def verifyLines (host : KitHost) (disk : Disk) (root : PurePath) : Nat → List (List Char) → Except Exn (List PurePath)
  | _, [] => .ok []
  | number, raw :: lines =>
    if raw = [] then verifyLines host disk root (number + 1) lines
    else do
      let relative ← verifyLine host disk root number raw
      let entries ← verifyLines host disk root (number + 1) lines
      return relative :: entries

/-- `verify_manifest` -/
def verifyManifest (host : KitHost) (disk : Disk) (root : PurePath) :
    Except Exn (PurePath × List PurePath × List Char) :=
  let manifest := divText host.flavour root manifestName
  match disk.file host.flavour manifest with
  | none =>
    .error (.runtimeError ("missing distribution manifest: " ++ String.ofList (manifest.str host.flavour)))
  | some data => do
    let text ← readText data
    let entries ← verifyLines host disk root 1 (splitlines text)
    if entries = [] then throw (.runtimeError "SHA256SUMS contains no files")
    return (manifest, entries, host.sha256 data)

/-! ### `stage_and_relaunch` -/

inductive KitEvent
  | copied (source target : PurePath)
  | relaunch (command : List (List Char)) (cwd : PurePath)
  deriving DecidableEq

abbrev Staging := Traced Exn Disk KitEvent

/-- What is found out on the disks. -/
def onDisk {α : Type} (x : Disk → Except Exn α) : Staging α := fun disk => (x disk, disk, [])

/-- The launch of the staged launcher. -/
def relaunch (command : List (List Char)) (cwd : PurePath) : Staging Unit :=
  fun disk => (.ok (), disk, [.relaunch command cwd])

/-- `path.mkdir(parents=True, exist_ok=True)` -/
def mkdir (f : Flavour) (path : PurePath) : Staging Unit := fun disk =>
  let key := path.cparts f
  if key.inits.any fun k => match disk k with
    | some (.file _) => k ≠ []
    | _ => false
  then (.error .osError, disk, [])
  else (.ok (), fun k => if k ≠ [] ∧ k <+: key then some .directory else disk k, [])

/-- `shutil.copyfile(source, target)`, where the directory of the target is there -/
def copyfile (f : Flavour) (source target : PurePath) : Staging Unit := fun disk =>
  match disk.file f source with
  | none => (.error .osError, disk, [])
  | some data =>
    if source.cparts f = target.cparts f ∨ disk (target.cparts f) = some .directory then (.error .osError, disk, [])
    else (.ok (), Function.update disk (target.cparts f) (some (.file data)), [.copied source target])

/-- The loop over the entries. -/
def copyEntries (host : KitHost) (destination : PurePath) : List PurePath → Staging Unit
  | [] => pure ()
  | relative :: entries => do
    let source := div host.flavour host.kitRoot relative
    let target := div host.flavour destination relative
    mkdir host.flavour target.parent
    copyfile host.flavour source target
    copyEntries host destination entries

/-- The directory of the session. -/
def sessionDirectory (host : KitHost) (digest : List Char) : PurePath :=
  divText host.flavour host.runtimeRoot
    (digest.take 16 ++ '-' :: host.now ++ '-' :: Nat.toDigits 10 host.pid)

/-- `stage_and_relaunch` -/
def stageAndRelaunch (host : KitHost) (manifest : PurePath) (entries : List PurePath) (digest : List Char) :
    Staging Unit := do
  let destination := sessionDirectory host digest
  mkdir host.flavour destination
  copyEntries host destination entries
  copyfile host.flavour manifest (divText host.flavour destination manifest.name)
  let _ ← onDisk fun disk => verifyManifest host disk destination
  let boot := divText host.flavour destination "SHADOW_MSM_BOOT.py".toList
  let command := [host.executable, boot.str host.flavour] ++ host.arguments ++
    ["--staged".toList, "--cleanup-runtime".toList]
  relaunch command destination

/-! ### What is accepted -/

section

variable {host : KitHost} {disk : Disk} {root manifest relative : PurePath} {entries : List PurePath} {digest : List Char}

/-- The paths that the lines of a text list. -/
def listedPaths (host : KitHost) (text : List Char) : List PurePath :=
  (splitlines text).filterMap fun raw => (splitDouble raw).map fun (_, path) => parse host.flavour path

/-- The paths that the manifest of a directory lists. -/
def manifestPaths (host : KitHost) (disk : Disk) (root : PurePath) : List PurePath :=
  match disk.file host.flavour (divText host.flavour root manifestName) with
  | some data =>
    match readText data with
    | .ok text => listedPaths host text
    | .error _ => []
  | none => []

/-- A line is accepted for a digest and a path that is not absolute, does not go up, and leads to a file with this digest. -/
theorem verifyLine_eq_ok {number : Nat} {raw : List Char} :
    verifyLine host disk root number raw = .ok relative ↔ ∃ expected text data, splitDouble raw = some (expected, text) ∧
      isDigest expected = true ∧ relative = parse host.flavour text ∧ isAbsolute host.flavour relative = false ∧
        ['.', '.'] ∉ relative.parts ∧ disk.file host.flavour (div host.flavour root relative) = some data ∧
          host.sha256 data = expected := by
  constructor
  · intro h
    unfold verifyLine at h
    dsimp only at h
    split at h
    · cases h
    · rename_i expected text hsplit
      split_ifs at h with hdigest hsafe
      split at h
      · cases h
      · rename_i data hfile
        split_ifs at h with hsha
        cases h
        obtain ⟨habs, hdots⟩ := not_or.mp hsafe
        exact ⟨expected, text, data, hsplit, by simpa using hdigest, rfl, by simpa using habs, hdots, hfile, not_not.mp hsha⟩
  · rintro ⟨expected, text, data, hsplit, hdigest, rfl, habs, hdots, hfile, hsha⟩
    simp [verifyLine, hsplit, hdigest, habs, hdots, hfile, hsha]

theorem verifyLines_eq_ok {number : Nat} {lines : List (List Char)}
    (h : verifyLines host disk root number lines = .ok entries) :
    entries = lines.filterMap (fun raw => (splitDouble raw).map fun (_, path) => parse host.flavour path) ∧
      (∀ e ∈ entries, ∃ number raw, raw ∈ lines ∧ verifyLine host disk root number raw = .ok e) ∧
        ∀ raw ∈ lines, raw ≠ [] → ∃ number e, verifyLine host disk root number raw = .ok e := by
  induction lines generalizing number entries with
  | nil =>
    cases h
    exact ⟨rfl, nofun, nofun⟩
  | cons raw lines ih =>
    unfold verifyLines at h
    by_cases hraw : raw = []
    · rw [if_pos hraw] at h
      obtain ⟨hentries, haccepted, hall⟩ := ih h
      subst hraw
      refine ⟨hentries, ?_, ?_⟩
      · intro e he
        obtain ⟨k, raw, hmem, hline⟩ := haccepted e he
        exact ⟨k, raw, List.mem_cons_of_mem _ hmem, hline⟩
      · intro raw hmem hne
        exact hall raw ((List.mem_cons.mp hmem).resolve_left hne) hne
    · rw [if_neg hraw] at h
      obtain ⟨relative, hline, h⟩ := of_bind_ok h
      obtain ⟨rest, hrest, h⟩ := of_bind_ok h
      cases h
      obtain ⟨hentries, haccepted, hall⟩ := ih hrest
      obtain ⟨_, text, _, hsplit, -, rfl, -⟩ := verifyLine_eq_ok.mp hline
      refine ⟨?_, ?_, ?_⟩
      · rw [List.filterMap_cons, hsplit, hentries]
        rfl
      · intro e he
        rcases List.mem_cons.mp he with rfl | he
        · exact ⟨number, raw, List.mem_cons_self, hline⟩
        · obtain ⟨k, raw', hmem, hline'⟩ := haccepted e he
          exact ⟨k, raw', List.mem_cons_of_mem _ hmem, hline'⟩
      · intro raw' hmem hne
        rcases List.mem_cons.mp hmem with rfl | hmem
        · exact ⟨number, _, hline⟩
        · exact hall raw' hmem hne

theorem verifyManifest_eq_ok : verifyManifest host disk root = .ok (manifest, entries, digest) ↔
    ∃ data text, disk.file host.flavour (divText host.flavour root manifestName) = some data ∧ readText data = .ok text ∧
      verifyLines host disk root 1 (splitlines text) = .ok entries ∧ entries ≠ [] ∧
        manifest = divText host.flavour root manifestName ∧ digest = host.sha256 data := by
  constructor
  · intro h
    unfold verifyManifest at h
    dsimp only at h
    split at h
    · cases h
    · rename_i data hfile
      obtain ⟨text, htext, h⟩ := of_bind_ok h
      obtain ⟨es, hlines, h⟩ := of_bind_ok h
      by_cases hempty : es = []
      · rw [if_pos hempty] at h
        cases h
      · rw [if_neg hempty] at h
        cases h
        exact ⟨data, text, hfile, htext, hlines, hempty, rfl, rfl⟩
  · rintro ⟨data, text, hfile, htext, hlines, hne, rfl, rfl⟩
    simp only [verifyManifest, hfile]
    rw [bind_of_ok htext, bind_of_ok hlines, if_neg hne]
    rfl

/-- The accepted paths are the listed ones. -/
theorem entries_eq_manifestPaths (h : verifyManifest host disk root = .ok (manifest, entries, digest)) :
    entries = manifestPaths host disk root := by
  obtain ⟨data, text, hfile, htext, hlines, -, -, -⟩ := verifyManifest_eq_ok.mp h
  rw [manifestPaths, hfile]
  simp only [htext]
  exact (verifyLines_eq_ok hlines).1

/-- An accepted path is a relative one without `..`. -/
theorem relative_of_mem_entries (h : verifyManifest host disk root = .ok (manifest, entries, digest))
    (he : relative ∈ entries) : isAbsolute host.flavour relative = false ∧ Relative host.flavour relative ∧
      ['.', '.'] ∉ relative.parts := by
  obtain ⟨data, text, -, -, hlines, -⟩ := verifyManifest_eq_ok.mp h
  obtain ⟨number, raw, -, hline⟩ := (verifyLines_eq_ok hlines).2.1 relative he
  obtain ⟨_, path, _, -, -, rfl, habs, hdots, -⟩ := verifyLine_eq_ok.mp hline
  exact ⟨habs, relative_parse habs, hdots⟩

theorem divText_manifestName (f : Flavour) (p : PurePath) :
    divText f p manifestName = ⟨p.drv, p.root, p.names ++ [manifestName]⟩ := by
  have hparse : parse f manifestName = ⟨[], [], [manifestName]⟩ := by
    rcases f with _ | _
    · decide
    · decide
  rw [divText, hparse]
  rfl

/-! ### What is copied -/

/-- A copy of an entry from the kit to a directory. -/
def entryCopy (host : KitHost) (destination e : PurePath) : KitEvent :=
  .copied (div host.flavour host.kitRoot e) (div host.flavour destination e)

theorem sat_mkdir (f : Flavour) (path : PurePath) : Traced.Sat (mkdir f path) fun _ l => l = [] := by
  constructor
  intro disk
  unfold mkdir
  dsimp only
  split <;> rfl

/-- A copy that ends well is one event, and another none. -/
theorem sat_copyfile (f : Flavour) (source target : PurePath) : Traced.Sat (copyfile f source target) fun r l =>
    (∀ t ∈ l, t = .copied source target) ∧ (r = .ok () → l = [.copied source target]) := by
  constructor
  intro disk
  unfold copyfile
  split
  · exact ⟨nofun, nofun⟩
  · split
    · exact ⟨nofun, nofun⟩
    · exact ⟨fun t ht => List.mem_singleton.mp ht, fun _ => rfl⟩

/-- The loop copies nothing but entries, and all of them where it ends well. -/
theorem sat_copyEntries (destination : PurePath) (entries : List PurePath) :
    Traced.Sat (copyEntries host destination entries) fun r l =>
      (∀ t ∈ l, ∃ e ∈ entries, t = entryCopy host destination e) ∧
        (r = .ok () → l = entries.map (entryCopy host destination)) := by
  induction entries with
  | nil => exact Traced.sat_pure ⟨nofun, fun _ => rfl⟩
  | cons e entries ih =>
    apply Traced.sat_bind (sat_mkdir _ _)
    · rintro err l rfl
      exact ⟨nofun, nofun⟩
    rintro - l rfl
    apply Traced.sat_bind (sat_copyfile _ _ _)
    · intro err l hl
      exact ⟨fun t ht => ⟨e, List.mem_cons_self, hl.1 t ht⟩, nofun⟩
    intro _ l hl
    apply ih.mono
    intro r l' hl'
    rw [hl.2 rfl, List.nil_append]
    refine ⟨?_, ?_⟩
    · intro t ht
      rcases List.mem_cons.mp ht with rfl | ht
      · exact ⟨e, List.mem_cons_self, rfl⟩
      · obtain ⟨e', he', rfl⟩ := hl'.1 t ht
        exact ⟨e', List.mem_cons_of_mem _ he', rfl⟩
    · intro hr
      rw [hl'.2 hr]
      rfl

/-- The staging copies entries and the manifest, and all entries where it ends well. -/
theorem sat_stageAndRelaunch (entries : List PurePath) : Traced.Sat (stageAndRelaunch host manifest entries digest) fun r l =>
    (∀ source target, .copied source target ∈ l →
      (∃ e ∈ entries, .copied source target = entryCopy host (sessionDirectory host digest) e) ∨
        source = manifest ∧ target = divText host.flavour (sessionDirectory host digest) manifest.name) ∧
      (r = .ok () → ∀ e ∈ entries, entryCopy host (sessionDirectory host digest) e ∈ l) := by
  unfold stageAndRelaunch
  apply Traced.sat_bind (sat_mkdir _ _)
  · rintro err l rfl
    exact ⟨nofun, nofun⟩
  rintro - l rfl
  simp only [List.nil_append]
  apply Traced.sat_bind (sat_copyEntries _ entries)
  · intro err l hl
    exact ⟨fun source target ht => .inl (hl.1 _ ht), nofun⟩
  intro _ l hl
  have hentries : ∀ e ∈ entries, entryCopy host (sessionDirectory host digest) e ∈ l := by
    intro e he
    rw [hl.2 rfl]
    exact List.mem_map_of_mem he
  have hmanifest {l' : List KitEvent} {source target : PurePath}
      (hl' : ∀ t ∈ l', t = .copied manifest (divText host.flavour (sessionDirectory host digest) manifest.name))
      (ht : .copied source target ∈ l ++ l') :
      (∃ e ∈ entries, .copied source target = entryCopy host (sessionDirectory host digest) e) ∨
        source = manifest ∧ target = divText host.flavour (sessionDirectory host digest) manifest.name := by
    rcases List.mem_append.mp ht with ht | ht
    · exact .inl (hl.1 _ ht)
    · cases hl' _ ht
      exact .inr ⟨rfl, rfl⟩
  apply Traced.sat_bind (sat_copyfile _ _ _)
  · exact fun err l' hl' => ⟨fun source target ht => hmanifest hl'.1 ht, nofun⟩
  intro _ l' hl'
  have hverify : Traced.Sat (onDisk fun disk => verifyManifest host disk (sessionDirectory host digest))
      fun _ l => l = [] := ⟨fun _ => rfl⟩
  apply Traced.sat_bind hverify
  · rintro err l rfl
    rw [List.append_nil]
    exact ⟨fun source target ht => hmanifest hl'.1 ht, nofun⟩
  rintro _ l rfl
  refine ⟨fun disk => ⟨?_, fun _ e he => List.mem_append_left _ (hentries e he)⟩⟩
  intro source target ht
  apply hmanifest hl'.1
  simpa [relaunch] using ht

/-! ### Where the paths lead -/

/-- The paths of the manifest stay in a directory exactly when the accepted ones are inside it under `/`; where all of them
stay in the kit and in the directory of the session, all copies are from the one to the other, and a staging that ends
well makes a copy for each.  POSIX paths stay everywhere. -/
theorem manifest_paths_inside_iff (h : verifyManifest host disk root = .ok (manifest, entries, digest)) :
    (∀ base, (∀ e ∈ entries, Inside host.flavour base (div host.flavour base e)) ↔
      ∀ e ∈ manifestPaths host disk root, Stays host.flavour base e) ∧
    (root = host.kitRoot → ∀ start r disk' l, stageAndRelaunch host manifest entries digest start = (r, disk', l) →
      ((∀ e ∈ manifestPaths host disk root,
          Stays host.flavour host.kitRoot e ∧ Stays host.flavour (sessionDirectory host digest) e) →
        ∀ source target, .copied source target ∈ l → Inside host.flavour host.kitRoot source ∧
          Inside host.flavour (sessionDirectory host digest) target) ∧
      (r = .ok () → (∀ source target, .copied source target ∈ l → Inside host.flavour host.kitRoot source ∧
          Inside host.flavour (sessionDirectory host digest) target) →
        ∀ e ∈ manifestPaths host disk root,
          Stays host.flavour host.kitRoot e ∧ Stays host.flavour (sessionDirectory host digest) e)) ∧
    (host.flavour = .posix → ∀ base, ∀ e ∈ manifestPaths host disk root, Stays host.flavour base e) := by
  have hpaths := entries_eq_manifestPaths h
  have hrel {e : PurePath} (he : e ∈ manifestPaths host disk root) := relative_of_mem_entries h (hpaths ▸ he)
  have hinside {e base : PurePath} (he : e ∈ manifestPaths host disk root) :
      Inside host.flavour base (div host.flavour base e) ↔ Stays host.flavour base e :=
    inside_div_iff (hrel he).2.1 (hrel he).2.2 base
  refine ⟨?_, ?_, ?_⟩
  · intro base
    rw [hpaths]
    exact forall₂_congr fun e he => hinside he
  · intro hroot start r disk' l hrun
    obtain ⟨-, -, -, -, -, -, hmanifest, -⟩ := verifyManifest_eq_ok.mp h
    obtain ⟨hcopied, hall⟩ := (sat_stageAndRelaunch entries).of_run hrun
    refine ⟨?_, ?_⟩
    · intro hstays source target ht
      rcases hcopied source target ht with ⟨e, he, hcopy⟩ | ⟨hsource, htarget⟩
      · rw [hpaths] at he
        cases hcopy
        exact ⟨(hinside he).mpr (hstays e he).1, (hinside he).mpr (hstays e he).2⟩
      · have hname : manifest.name = manifestName := by
          rw [hmanifest, divText_manifestName]
          simp [name]
        have hplain : ['.', '.'] ∉ [manifestName] := by decide
        rw [hsource, htarget, hname, hmanifest, hroot, divText_manifestName, divText_manifestName]
        exact ⟨(inside_append _ _).mpr hplain, (inside_append _ _).mpr hplain⟩
    · intro hr hcopies e he
      have := hcopies _ _ (hall hr e (hpaths ▸ he))
      exact ⟨(hinside he).mp this.1, (hinside he).mp this.2⟩
  · intro hposix base e he
    have habs := (hrel he).1
    rw [hposix] at habs ⊢
    exact stays_posix habs base

end

/-! ### A rooted path -/

/-- The digest of an empty file. -/
def emptyDigest : List Char := "e3b0c44298fc1c149afbf4c8996fb92427ae41e4649b934ca495991b7852b855".toList

/-- A manifest that lists an empty file as `\\x`. -/
def rootedManifest : Bytes := encodeAscii (emptyDigest ++ [' ', ' ', '\\', 'x', '\n'])

/-- A Windows host with the kit on `E:` and the sessions on `C:`; its digests are those of the two files. -/
def rootedHost : KitHost where
  flavour := .windows
  sha256 := fun data =>
    if data = rootedManifest then "28d691f19f46ab542a3a888458d0de140b82a1071ec14fa3cdd015aca2301ee8".toList
    else emptyDigest
  kitRoot := ⟨['E', ':'], ['\\'], [['k', 'i', 't']]⟩
  runtimeRoot := ⟨['C', ':'], ['\\'], [['r', 'u', 'n']]⟩
  now := "20260810_120000".toList
  pid := 1
  executable := ['p', 'y']
  arguments := []

/-- The manifest in the kit, and the empty file at the top of `E:`. -/
def rootedDisk : Disk := fun key =>
  if key = [['e', ':', '\\'], ['k', 'i', 't'], manifestName.map Char.toLower] then some (.file rootedManifest)
  else if key = [['e', ':', '\\'], ['x']] then some (.file [])
  else none

private theorem verifyManifest_rooted : verifyManifest rootedHost rootedDisk rootedHost.kitRoot =
    .ok (⟨['E', ':'], ['\\'], [['k', 'i', 't'], manifestName]⟩, [⟨[], ['\\'], [['x']]⟩], rootedHost.sha256 rootedManifest) := rfl

/-- The rooted path is outside of the kit, so it does not stay there. -/
theorem manifest_paths_inside_iff_rooted :
    (∀ e ∈ [(⟨[], ['\\'], [['x']]⟩ : PurePath)], Inside .windows rootedHost.kitRoot (div .windows rootedHost.kitRoot e)) ↔
      ∀ e ∈ manifestPaths rootedHost rootedDisk rootedHost.kitRoot, Stays .windows rootedHost.kitRoot e :=
  (manifest_paths_inside_iff verifyManifest_rooted).1 rootedHost.kitRoot

/-- The rooted path is accepted; it leads out of the kit, and its copy is made from outside of the kit to outside of the
directory of the session. -/
theorem rooted_path_escapes : ∃ manifest entries digest, verifyManifest rootedHost rootedDisk rootedHost.kitRoot =
      .ok (manifest, entries, digest) ∧
    (∃ e ∈ entries, ¬ Inside .windows rootedHost.kitRoot (div .windows rootedHost.kitRoot e)) ∧
      ∃ source target, .copied source target ∈ (stageAndRelaunch rootedHost manifest entries digest rootedDisk).2.2 ∧
        ¬ Inside .windows rootedHost.kitRoot source ∧ ¬ Inside .windows (sessionDirectory rootedHost digest) target := by
  refine ⟨_, _, _, verifyManifest_rooted, ⟨_, List.mem_singleton_self _, ?_⟩, ⟨['E', ':'], ['\\'], [['x']]⟩,
    ⟨['C', ':'], ['\\'], [['x']]⟩, ?_, ?_, ?_⟩
  · rintro ⟨-, -, rest, hrest, -⟩
    cases hrest
  · have hrun : ((stageAndRelaunch rootedHost ⟨['E', ':'], ['\\'], [['k', 'i', 't'], manifestName]⟩ [⟨[], ['\\'], [['x']]⟩]
        (rootedHost.sha256 rootedManifest)) rootedDisk).2.2.head? =
          some (.copied ⟨['E', ':'], ['\\'], [['x']]⟩ ⟨['C', ':'], ['\\'], [['x']]⟩) := rfl
    exact List.mem_of_head? hrun
  · rintro ⟨-, -, rest, hrest, -⟩
    cases hrest
  · rintro ⟨-, -, rest, hrest, -⟩
    cases hrest

end ShadowMsm.Host
